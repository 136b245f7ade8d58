import Os161.Lib.Loop
import Os161.Machine.Stop
import Os161.Machine.Word

set_option autoImplicit false

/-!
# User copies

`kern/vm/copyinout.c`: the copies between the kernel and user memory. A user address that cannot be
accessed is a fatal fault, from which `tm_badfaultfunc` recovers.

* `copycheck`, `copystr`, `copyBlock`, `copyString`: the functions, for both directions.
* `CopyState.after`: memory after the first bytes have been copied.
* `copyBlock_outside`, `copyBlock_inside`, `copyString_outside`, `copyString_inside`: the outcomes.
* **`user_copies`**: no byte at or above `USERSPACETOP` is touched, and which calls succeed.
-/

namespace Os161

/-- The errors of a copy. -/
inductive CopyErr
  | efault
  | enametoolong
  deriving DecidableEq, Repr

/-- The direction of a copy. -/
inductive CopyDir
  | toKernel
  | toUser
  deriving DecidableEq, Repr

/-- The addresses the kernel can read and write through the current address space. -/
structure UserAccess where
  readable : ℕ → Bool
  writable : ℕ → Bool

/-- The accesses a copy needs. -/
def UserAccess.allows (acc : UserAccess) : CopyDir → ℕ → Bool
  | .toKernel => acc.readable
  | .toUser => acc.writable

/-- Memory as a copy sees it: the bytes at user addresses and those from the kernel's pointer on;
whether `tm_badfaultfunc` is `copyfail`; and the user addresses accessed so far. -/
structure CopyState where
  user : ℕ → BitVec 8
  kernel : ℕ → BitVec 8
  badfaultfunc : Bool
  touched : List ℕ

/-- Where a fatal fault in kernel mode leads. -/
inductive CopyFault
  | copyfail
  | fatal
  deriving DecidableEq, Repr

/-- `dest[i] = src[i]`, with the byte that was copied. -/
def copyByte (dir : CopyDir) (acc : UserAccess) (userptr i : ℕ) (s : CopyState) :
    Except CopyFault (BitVec 8) × CopyState :=
  let a := wadd userptr i
  let s' := { s with touched := s.touched ++ [a] }
  if acc.allows dir a = false then
    (.error (if s.badfaultfunc = true then .copyfail else .fatal), s')
  else match dir with
    | .toKernel => (.ok (s.user a), { s' with kernel := Function.update s.kernel i (s.user a) })
    | .toUser => (.ok (s.kernel i), { s' with user := Function.update s.user a (s.kernel i) })

/-- `copycheck`, with the new `stoplen`. -/
def Copyinout.copycheck (userptr len : ℕ) : Except CopyErr ℕ :=
  let bot := userptr
  let top := wsub (wadd bot len) 1
  if top < bot then .error .efault
  else if userspaceTop ≤ bot then .error .efault
  else if userspaceTop ≤ top then .ok (wsub userspaceTop bot)
  else .ok len

section Loops

variable (copy : ℕ → CopyState → Except CopyFault (BitVec 8) × CopyState)

/-- `memcpy` of the bytes from `i` on, of which there are `n`. -/
def memcpy : ℕ → ℕ → CopyState → Except CopyFault Unit × CopyState
  | _, 0, s => (.ok (), s)
  | i, n + 1, s =>
    match copy i s with
    | (.error e, s) => (.error e, s)
    | (.ok _, s) => memcpy (i + 1) n s

/-- The loop of `copystr`, with `n` bytes left to `maxlen`; it returns `i+1` at the NUL. -/
def copystrLoop (stoplen : ℕ) : ℕ → ℕ → CopyState → Except CopyFault (Option ℕ) × CopyState
  | _, 0, s => (.ok none, s)
  | i, n + 1, s =>
    if i < stoplen then
      match copy i s with
      | (.error e, s) => (.error e, s)
      | (.ok c, s) => if c = 0 then (.ok (some (i + 1)), s) else copystrLoop stoplen (i + 1) n s
    else (.ok none, s)

/-- `copystr`, with `*gotlen`. -/
def copystr (maxlen stoplen : ℕ) (s : CopyState) :
    Except CopyFault (Except CopyErr ℕ) × CopyState :=
  match copystrLoop copy stoplen 0 maxlen s with
  | (.error e, s) => (.error e, s)
  | (.ok (some gotlen), s) => (.ok (.ok gotlen), s)
  | (.ok none, s) => (.ok (.error (if stoplen < maxlen then .efault else .enametoolong)), s)

end Loops

/-- A copy under `tm_badfaultfunc`: `copyfail` comes back to the `setjmp` with EFAULT, and any other
fatal fault is the end of the kernel. -/
def withBadfaultfunc {α : Type}
    (body : CopyState → Except CopyFault (Except CopyErr α) × CopyState) (s : CopyState) :
    Except Stop (Except CopyErr α × CopyState) :=
  match body { s with badfaultfunc := true } with
  | (.ok r, s) => .ok (r, { s with badfaultfunc := false })
  | (.error .copyfail, s) => .ok (.error .efault, { s with badfaultfunc := false })
  | (.error .fatal, _) => .error (.panic .kernelFault)

/-- `result = copycheck(..., &stoplen); if (result) { return result; }`. -/
def afterCheck {α : Type} (result : Except CopyErr ℕ) (s : CopyState)
    (rest : ℕ → Except Stop (Except CopyErr α × CopyState)) :
    Except Stop (Except CopyErr α × CopyState) :=
  match result with
  | .error e => .ok (.error e, s)
  | .ok stoplen => rest stoplen

section Calls

variable (dir : CopyDir) (acc : UserAccess) (userptr len : ℕ) (s : CopyState)

/-- `copyin` and `copyout`, but for the direction. -/
def copyBlock : Except Stop (Except CopyErr Unit × CopyState) :=
  afterCheck (Copyinout.copycheck userptr len) s fun stoplen =>
    if stoplen ≠ len then .ok (.error .efault, s)
    else withBadfaultfunc (fun s =>
      let r := memcpy (copyByte dir acc userptr) 0 len s
      (r.1.map .ok, r.2)) s

/-- `copyinstr` and `copyoutstr`, but for the direction; the result is `*actual`. -/
def copyString : Except Stop (Except CopyErr ℕ × CopyState) :=
  afterCheck (Copyinout.copycheck userptr len) s fun stoplen =>
    withBadfaultfunc (copystr (copyByte dir acc userptr) len stoplen) s

/-- `copyin`. -/
def copyin : Except Stop (Except CopyErr Unit × CopyState) := copyBlock .toKernel acc userptr len s

/-- `copyout`. -/
def copyout : Except Stop (Except CopyErr Unit × CopyState) := copyBlock .toUser acc userptr len s

/-- `copyinstr`. -/
def copyinstr : Except Stop (Except CopyErr ℕ × CopyState) :=
  copyString .toKernel acc userptr len s

/-- `copyoutstr`. -/
def copyoutstr : Except Stop (Except CopyErr ℕ × CopyState) := copyString .toUser acc userptr len s

end Calls

/-! ## The range check -/

section Check

variable {p len : ℕ}

/-- A range that wraps around or starts in the kernel. -/
theorem copycheck_outside (hp : p < 2 ^ 32) (h₁ : 1 ≤ len) (hlen : len < 2 ^ 32)
    (h : 2 ^ 32 < p + len ∨ userspaceTop ≤ p) : Copyinout.copycheck p len = .error .efault := by
  have htop : wsub (wadd p len) 1 = (p + len - 1) % 2 ^ 32 := by
    unfold wsub wadd wordSize
    omega
  unfold Copyinout.copycheck
  simp only [htop]
  rcases Nat.lt_or_ge (2 ^ 32) (p + len) with hw | hw
  · rw [if_pos (by omega)]
  · have : userspaceTop ≤ p := by omega
    rw [if_neg (by omega), if_pos this]

/-- A range that starts in user space stops at its end. -/
theorem copycheck_inside (hp : p < userspaceTop) (h₁ : 1 ≤ len) (hw : p + len ≤ 2 ^ 32) :
    Copyinout.copycheck p len = .ok (min len (userspaceTop - p)) := by
  have htop : wsub (wadd p len) 1 = p + len - 1 := by
    unfold wsub wadd wordSize userspaceTop kseg0 at *
    omega
  have hsub : wsub userspaceTop p = userspaceTop - p := by
    unfold wsub wordSize userspaceTop kseg0 at *
    omega
  unfold Copyinout.copycheck
  simp only [htop, hsub]
  rw [if_neg (by omega), if_neg (by omega)]
  split_ifs with h
  · rw [Nat.min_eq_right (by omega)]
  · rw [Nat.min_eq_left (by omega)]

end Check

/-! ## The loops -/

namespace CopyState

variable (s : CopyState) (dir : CopyDir) (p : ℕ)

/-- The byte to be copied at offset `i`. -/
def src (i : ℕ) : BitVec 8 :=
  match dir with
  | .toKernel => s.user (p + i)
  | .toUser => s.kernel i

/-- **Memory after the first `n` bytes have been copied.** -/
def after (n : ℕ) : CopyState :=
  match dir with
  | .toKernel => { s with
      kernel := fun j => if j < n then s.user (p + j) else s.kernel j
      touched := s.touched ++ (List.range n).map (p + ·) }
  | .toUser => { s with
      user := fun a => if p ≤ a ∧ a < p + n then s.kernel (a - p) else s.user a
      touched := s.touched ++ (List.range n).map (p + ·) }

/-- The access at offset `n` that faults. -/
def faultAt (n : ℕ) : CopyState :=
  { s.after dir p n with touched := (s.after dir p n).touched ++ [p + n] }

/-- What is made of a fault. -/
def onFault : CopyFault := if s.badfaultfunc = true then .copyfail else .fatal

theorem after_zero : s.after dir p 0 = s := by
  cases dir with
  | toKernel => simp [after]
  | toUser =>
    simp only [after, List.range_zero, List.map_nil, List.append_nil]
    have : ∀ a, ¬ (p ≤ a ∧ a < p + 0) := fun a h => by omega
    simp only [this, if_false]

theorem after_touched (n : ℕ) :
    (s.after dir p n).touched = s.touched ++ (List.range n).map (p + ·) := by
  cases dir <;> rfl

theorem after_badfaultfunc (n : ℕ) : (s.after dir p n).badfaultfunc = s.badfaultfunc := by
  cases dir <;> rfl

/-- The source is not written. -/
theorem src_after (n i : ℕ) : (s.after dir p n).src dir p i = s.src dir p i := by
  cases dir <;> rfl

/-- The user addresses touched are those of the copied bytes. -/
theorem lt_of_mem_after {n b a : ℕ} (h : a ∈ (s.after dir p n).touched) (hb : p + n ≤ b) :
    a ∈ s.touched ∨ a < b := by
  rw [after_touched, List.mem_append, List.mem_map] at h
  rcases h with h | ⟨i, hi, rfl⟩
  · exact .inl h
  · exact .inr (by rw [List.mem_range] at hi; omega)

theorem lt_of_mem_faultAt {n b a : ℕ} (h : a ∈ (s.faultAt dir p n).touched) (hb : p + n < b) :
    a ∈ s.touched ∨ a < b := by
  rcases List.mem_append.mp h with h | h
  · exact lt_of_mem_after s dir p h (Nat.le_of_lt hb)
  · rw [List.mem_singleton] at h
    exact .inr (h ▸ hb)

end CopyState

section Loops

variable {dir : CopyDir} {acc : UserAccess} {p : ℕ} {s : CopyState}

/-- **One byte more.** -/
theorem copyByte_after {i : ℕ} (ha : acc.allows dir (p + i) = true) (hi : p + i < 2 ^ 32) :
    copyByte dir acc p i (s.after dir p i) = (.ok (s.src dir p i), s.after dir p (i + 1)) := by
  have haddr : wadd p i = p + i := wadd_of_lt hi
  unfold copyByte
  simp only [haddr, ha, Bool.true_eq_false, if_false]
  cases dir with
  | toKernel =>
    simp only [CopyState.after, CopyState.src, List.range_succ, List.map_append, List.map_cons,
      List.map_nil, List.append_assoc, Prod.mk.injEq, true_and, CopyState.mk.injEq, and_true]
    funext j
    by_cases hj : j = i
    · subst hj
      rw [Function.update_self, if_pos (Nat.lt_succ_self _)]
    · rw [Function.update_of_ne hj]
      exact if_congr (by omega) rfl rfl
  | toUser =>
    simp only [CopyState.after, CopyState.src, List.range_succ, List.map_append, List.map_cons,
      List.map_nil, List.append_assoc, Prod.mk.injEq, true_and, CopyState.mk.injEq, and_true]
    funext a
    by_cases hja : a = p + i
    · subst hja
      rw [Function.update_self, if_pos (by omega), Nat.add_sub_cancel_left]
    · rw [Function.update_of_ne hja]
      exact if_congr (by omega) rfl rfl

/-- An address that cannot be accessed. -/
theorem copyByte_fault {i : ℕ} (ha : acc.allows dir (p + i) = false) (hi : p + i < 2 ^ 32) :
    copyByte dir acc p i (s.after dir p i) = (.error s.onFault, s.faultAt dir p i) := by
  have haddr : wadd p i = p + i := wadd_of_lt hi
  unfold copyByte CopyState.onFault CopyState.faultAt
  simp only [haddr, ha, if_true, CopyState.after_badfaultfunc]

theorem memcpy_all : ∀ {n i : ℕ}, p + (i + n) ≤ 2 ^ 32 →
    (∀ j, i ≤ j → j < i + n → acc.allows dir (p + j) = true) →
    memcpy (copyByte dir acc p) i n (s.after dir p i) = (.ok (), s.after dir p (i + n))
  | 0, _, _, _ => rfl
  | n + 1, i, hw, h => by
    rw [memcpy, copyByte_after (h i (le_refl _) (by omega)) (by omega)]
    simp only
    rw [memcpy_all (by omega) fun j h₁ h₂ => h j (by omega) (by omega)]
    congr 2
    omega

theorem memcpy_fault {k : ℕ} (hk : p + k < 2 ^ 32) (hf : acc.allows dir (p + k) = false) :
    ∀ {n i : ℕ}, i ≤ k → k < i + n →
      (∀ j, i ≤ j → j < k → acc.allows dir (p + j) = true) →
      memcpy (copyByte dir acc p) i n (s.after dir p i) = (.error s.onFault, s.faultAt dir p k)
  | 0, _, _, _, _ => by omega
  | n + 1, i, hik, hkn, h => by
    by_cases he : i = k
    · subst he
      rw [memcpy, copyByte_fault hf hk]
    · rw [memcpy, copyByte_after (h i (le_refl _) (by omega)) (by omega)]
      exact memcpy_fault hk hf (by omega) (by omega) fun j h₁ h₂ => h j (by omega) h₂

/-- Neither a fault nor a NUL up to the end. -/
theorem copystrLoop_none {stop : ℕ} (hw : p + stop ≤ 2 ^ 32) :
    ∀ {n i : ℕ}, i ≤ stop → (∀ j, i ≤ j → j < i + n → j < stop →
        acc.allows dir (p + j) = true ∧ s.src dir p j ≠ 0) →
      copystrLoop (copyByte dir acc p) stop i n (s.after dir p i) =
        (.ok none, s.after dir p (min (i + n) stop))
  | 0, i, hi, _ => by rw [copystrLoop, Nat.add_zero, Nat.min_eq_left hi]
  | n + 1, i, hi, h => by
    rw [copystrLoop]
    by_cases hlt : i < stop
    · obtain ⟨ha, hz⟩ := h i (le_refl _) (by omega) hlt
      rw [if_pos hlt, copyByte_after ha (by omega)]
      simp only [hz, if_false]
      rw [copystrLoop_none hw (by omega) fun j h₁ h₂ h₃ => h j (by omega) (by omega) h₃]
      congr 3
      omega
    · rw [if_neg hlt, Nat.min_eq_right (by omega), show stop = i by omega]

section First

variable {stop k : ℕ} (hw : p + stop ≤ 2 ^ 32) (hk : k < stop)

include hw hk

/-- The first NUL, with no fault up to it. -/
theorem copystrLoop_nul (ha : acc.allows dir (p + k) = true) (hz : s.src dir p k = 0) :
    ∀ {n i : ℕ}, i ≤ k → k < i + n →
      (∀ j, i ≤ j → j < k → acc.allows dir (p + j) = true ∧ s.src dir p j ≠ 0) →
      copystrLoop (copyByte dir acc p) stop i n (s.after dir p i) =
        (.ok (some (k + 1)), s.after dir p (k + 1))
  | 0, _, _, _, _ => by omega
  | n + 1, i, hik, hkn, h => by
    rw [copystrLoop, if_pos (by omega)]
    by_cases he : i = k
    · subst he
      rw [copyByte_after ha (by omega)]
      simp only [hz, if_true]
    · obtain ⟨ha', hz'⟩ := h i (le_refl _) (by omega)
      rw [copyByte_after ha' (by omega)]
      simp only [hz', if_false]
      exact copystrLoop_nul ha hz (by omega) (by omega) fun j h₁ h₂ => h j (by omega) h₂

/-- The first fault, with no NUL before it. -/
theorem copystrLoop_fault (hf : acc.allows dir (p + k) = false) :
    ∀ {n i : ℕ}, i ≤ k → k < i + n →
      (∀ j, i ≤ j → j < k → acc.allows dir (p + j) = true ∧ s.src dir p j ≠ 0) →
      copystrLoop (copyByte dir acc p) stop i n (s.after dir p i) =
        (.error s.onFault, s.faultAt dir p k)
  | 0, _, _, _, _ => by omega
  | n + 1, i, hik, hkn, h => by
    rw [copystrLoop, if_pos (by omega)]
    by_cases he : i = k
    · subst he
      rw [copyByte_fault hf (by omega)]
    · obtain ⟨ha', hz'⟩ := h i (le_refl _) (by omega)
      rw [copyByte_after ha' (by omega)]
      simp only [hz', if_false]
      exact copystrLoop_fault hf (by omega) (by omega) fun j h₁ h₂ => h j (by omega) h₂

end First

end Loops

/-! ## The calls -/

/-- Memory after a copy that has gone through `tm_badfaultfunc`. -/
def CopyState.cleared (s : CopyState) : CopyState := { s with badfaultfunc := false }

section Outcomes

variable {dir : CopyDir} {acc : UserAccess} {p len : ℕ} {s : CopyState}

theorem CopyState.cleared_after (n : ℕ) :
    (({ s with badfaultfunc := true } : CopyState).after dir p n).cleared =
      (s.after dir p n).cleared := by
  cases dir <;> rfl

theorem CopyState.cleared_faultAt (n : ℕ) :
    (({ s with badfaultfunc := true } : CopyState).faultAt dir p n).cleared =
      (s.faultAt dir p n).cleared := by
  cases dir <;> rfl

/-- A body that ends. -/
theorem withBadfaultfunc_ok {α : Type}
    {body : CopyState → Except CopyFault (Except CopyErr α) × CopyState} {r : Except CopyErr α}
    {s' : CopyState} (h : body { s with badfaultfunc := true } = (.ok r, s')) :
    withBadfaultfunc body s = .ok (r, s'.cleared) := by
  rw [withBadfaultfunc, h]
  rfl

/-- A body that faults. -/
theorem withBadfaultfunc_copyfail {α : Type}
    {body : CopyState → Except CopyFault (Except CopyErr α) × CopyState} {s' : CopyState}
    (h : body { s with badfaultfunc := true } = (.error .copyfail, s')) :
    withBadfaultfunc body s = .ok (.error .efault, s'.cleared) := by
  rw [withBadfaultfunc, h]
  rfl

section Outside

variable (hp : p < 2 ^ 32) (h₁ : 1 ≤ len) (hlen : len < 2 ^ 32)

include hp h₁ hlen

/-- **A block that is not all in user space** is not copied. -/
theorem copyBlock_outside (h : userspaceTop < p + len) :
    copyBlock dir acc p len s = .ok (.error .efault, s) := by
  rw [copyBlock]
  by_cases hout : 2 ^ 32 < p + len ∨ userspaceTop ≤ p
  · rw [copycheck_outside hp h₁ hlen hout]
    rfl
  · rw [copycheck_inside (by omega) h₁ (by omega), afterCheck]
    exact if_pos (by omega)

/-- **A string at a kernel address, or with a limit that wraps around**, is not copied. -/
theorem copyString_outside (h : 2 ^ 32 < p + len ∨ userspaceTop ≤ p) :
    copyString dir acc p len s = .ok (.error .efault, s) := by
  rw [copyString, copycheck_outside hp h₁ hlen h]
  rfl

end Outside

section Block

variable (h₁ : 1 ≤ len) (htop : p + len ≤ userspaceTop)

include h₁ htop

theorem copycheck_block : Copyinout.copycheck p len = .ok len := by
  have htop' : userspaceTop = 2 ^ 31 := rfl
  rw [copycheck_inside (by omega) h₁ (by omega), Nat.min_eq_left (by omega)]

/-- **A block in user space that can be accessed** is copied. -/
theorem copyBlock_all (h : ∀ i < len, acc.allows dir (p + i) = true) :
    copyBlock dir acc p len s = .ok (.ok (), (s.after dir p len).cleared) := by
  have htop' : userspaceTop = 2 ^ 31 := rfl
  have hall : ∀ j, 0 ≤ j → j < 0 + len → acc.allows dir (p + j) = true := fun j _ hj =>
    h j (by omega)
  have hrun := memcpy_all (s := { s with badfaultfunc := true }) (by omega) hall
  rw [CopyState.after_zero, Nat.zero_add] at hrun
  rw [copyBlock, copycheck_block h₁ htop, afterCheck, if_neg (not_not.mpr rfl)]
  rw [withBadfaultfunc_ok (by simp only [hrun]; rfl), CopyState.cleared_after]

/-- **A block with an address that cannot be accessed** is copied up to it. -/
theorem copyBlock_fault {k : ℕ} (hk : k < len) (hf : acc.allows dir (p + k) = false)
    (h : ∀ i < k, acc.allows dir (p + i) = true) :
    copyBlock dir acc p len s = .ok (.error .efault, (s.faultAt dir p k).cleared) := by
  have htop' : userspaceTop = 2 ^ 31 := rfl
  have hrun := memcpy_fault (s := { s with badfaultfunc := true }) (by omega) hf (i := 0)
    (n := len) (by omega) (by omega) fun j _ hj => h j hj
  rw [CopyState.after_zero] at hrun
  rw [copyBlock, copycheck_block h₁ htop, afterCheck, if_neg (not_not.mpr rfl)]
  rw [withBadfaultfunc_copyfail (by simp only [hrun]; rfl), CopyState.cleared_faultAt]

end Block

section String

variable (hp : p < userspaceTop) (h₁ : 1 ≤ len) (hw : p + len ≤ 2 ^ 32)

include hp h₁ hw

/-- **A string that ends** in the limit and in user space. -/
theorem copyString_nul {k : ℕ} (hk : k < len) (hku : p + k < userspaceTop)
    (ha : ∀ i ≤ k, acc.allows dir (p + i) = true) (hz : s.src dir p k = 0)
    (hnz : ∀ i < k, s.src dir p i ≠ 0) :
    copyString dir acc p len s = .ok (.ok (k + 1), (s.after dir p (k + 1)).cleared) := by
  have hstop : p + min len (userspaceTop - p) ≤ 2 ^ 32 := by omega
  have hrun := copystrLoop_nul (s := { s with badfaultfunc := true }) hstop (by omega) (ha k le_rfl)
    hz (i := 0) (n := len) (by omega) (by omega) fun j _ hj => ⟨ha j (Nat.le_of_lt hj), hnz j hj⟩
  rw [CopyState.after_zero] at hrun
  rw [copyString, copycheck_inside hp h₁ hw, afterCheck]
  rw [withBadfaultfunc_ok (by rw [copystr, hrun]), CopyState.cleared_after]

/-- **A string with an address that cannot be accessed** before its end. -/
theorem copyString_fault {k : ℕ} (hk : k < len) (hku : p + k < userspaceTop)
    (hf : acc.allows dir (p + k) = false)
    (h : ∀ i < k, acc.allows dir (p + i) = true ∧ s.src dir p i ≠ 0) :
    copyString dir acc p len s = .ok (.error .efault, (s.faultAt dir p k).cleared) := by
  have hstop : p + min len (userspaceTop - p) ≤ 2 ^ 32 := by omega
  have hrun := copystrLoop_fault (s := { s with badfaultfunc := true }) hstop (by omega) hf (i := 0)
    (n := len) (by omega) (by omega) fun j _ hj => h j hj
  rw [CopyState.after_zero] at hrun
  rw [copyString, copycheck_inside hp h₁ hw, afterCheck]
  rw [withBadfaultfunc_copyfail (by rw [copystr, hrun]; rfl), CopyState.cleared_faultAt]

/-- **A string that does not end** in the limit and in user space. -/
theorem copyString_none (h : ∀ i, i < len → p + i < userspaceTop →
      acc.allows dir (p + i) = true ∧ s.src dir p i ≠ 0) :
    copyString dir acc p len s =
      .ok (.error (if userspaceTop < p + len then .efault else .enametoolong),
        (s.after dir p (min len (userspaceTop - p))).cleared) := by
  have hend : p + min len (userspaceTop - p) ≤ 2 ^ 32 := by omega
  have hnone : ∀ j, 0 ≤ j → j < 0 + len → j < min len (userspaceTop - p) →
      acc.allows dir (p + j) = true ∧ s.src dir p j ≠ 0 := fun j _ _ hj => h j (by omega) (by omega)
  have hrun := copystrLoop_none (s := { s with badfaultfunc := true }) hend (Nat.zero_le _) hnone
  rw [CopyState.after_zero, Nat.zero_add, Nat.min_eq_right (Nat.min_le_left _ _)] at hrun
  rw [copyString, copycheck_inside hp h₁ hw, afterCheck]
  rw [withBadfaultfunc_ok (by rw [copystr, hrun]), CopyState.cleared_after]
  have hstop : min len (userspaceTop - p) < len ↔ userspaceTop < p + len := by omega
  simp only [hstop]

end String

/-! ## What a call does -/

variable (dir acc p len s)

/-- **What `copyin` and `copyout` have to do**: they succeed when the range is in user space and can
be accessed, and then the whole block is copied; they fail with EFAULT, and without a copy where
the range is not in user space. -/
structure BlockCopied (r : Except CopyErr Unit) (s' : CopyState) : Prop where
  touched : ∀ a ∈ s'.touched, a ∈ s.touched ∨ a < userspaceTop
  ok_iff : r = .ok () ↔ p + len ≤ userspaceTop ∧ ∀ i < len, acc.allows dir (p + i) = true
  efault_iff : r = .error .efault ↔ ¬ r = .ok ()
  copied : r = .ok () → s' = (s.after dir p len).cleared
  outside : userspaceTop < p + len → s' = s

/-- **What `copyinstr` and `copyoutstr` have to do.** They succeed when the range they are given does
not wrap around, a NUL is there in the limit and in user space, and the addresses up to it can be
accessed; the result is its position plus one. The error is ENAMETOOLONG when the limit ends first
and EFAULT when user space does, an address cannot be accessed, or the range wraps around. -/
structure StringCopied (r : Except CopyErr ℕ) (s' : CopyState) : Prop where
  touched : ∀ a ∈ s'.touched, a ∈ s.touched ∨ a < userspaceTop
  ok_iff : ∀ got, r = .ok got ↔ p + len ≤ 2 ^ 32 ∧ ∃ i, got = i + 1 ∧ i < len ∧
    p + i < userspaceTop ∧ s.src dir p i = 0 ∧ (∀ j < i, s.src dir p j ≠ 0) ∧
    ∀ j ≤ i, acc.allows dir (p + j) = true
  enametoolong_iff : r = .error .enametoolong ↔ p + len ≤ userspaceTop ∧
    ∀ i < len, acc.allows dir (p + i) = true ∧ s.src dir p i ≠ 0
  efault_iff : r = .error .efault ↔ 2 ^ 32 < p + len ∨ userspaceTop ≤ p ∨
    (∃ i < len, p + i < userspaceTop ∧ acc.allows dir (p + i) = false ∧
      ∀ j < i, acc.allows dir (p + j) = true ∧ s.src dir p j ≠ 0) ∨
    userspaceTop < p + len ∧
      ∀ i, p + i < userspaceTop → acc.allows dir (p + i) = true ∧ s.src dir p i ≠ 0
  copied : ∀ got, r = .ok got → s' = (s.after dir p got).cleared
  outside : 2 ^ 32 < p + len ∨ userspaceTop ≤ p → s' = s

variable {dir acc p len s}

/-- **A block copy** does what it has to. -/
theorem copyBlock_spec (hp : p < 2 ^ 32) (h₁ : 1 ≤ len) (hlen : len < 2 ^ 32) :
    ∃ r s', copyBlock dir acc p len s = .ok (r, s') ∧ BlockCopied dir acc p len s r s' := by
  by_cases htop : p + len ≤ userspaceTop
  · cases hf : Loop.firstIdx (fun i => !acc.allows dir (p + i)) 0 len with
    | none =>
      have hall : ∀ i < len, acc.allows dir (p + i) = true := fun i hi => by
        simpa using Loop.firstIdx_eq_none.mp hf i (Nat.zero_le _) (by omega)
      refine ⟨_, _, copyBlock_all h₁ htop hall, ?_, ?_, ?_, fun _ => rfl, fun h => by omega⟩
      · exact fun a ha => CopyState.lt_of_mem_after s dir p ha htop
      · exact iff_of_true rfl ⟨htop, hall⟩
      · simp
    | some k =>
      obtain ⟨-, hk, hfault, hlow⟩ := Loop.firstIdx_eq_some.mp hf
      have hfault' : acc.allows dir (p + k) = false := by simpa using hfault
      refine ⟨_, _, copyBlock_fault h₁ htop (by omega) hfault' fun i hi => ?_, ?_, ?_, ?_, ?_, ?_⟩
      · simpa using hlow i (Nat.zero_le _) hi
      · exact fun a ha => CopyState.lt_of_mem_faultAt s dir p ha (by omega)
      · refine iff_of_false (by simp) fun h => ?_
        rw [h.2 k (by omega)] at hfault'
        cases hfault'
      · simp
      · simp
      · exact fun h => by omega
  · refine ⟨_, _, copyBlock_outside hp h₁ hlen (by omega), fun a ha => .inl ha, ?_, ?_, ?_,
      fun _ => rfl⟩
    · exact iff_of_false (by simp) fun h => htop h.1
    · simp
    · simp

section StringSpec

variable (hp : p < userspaceTop) (h₁ : 1 ≤ len) (hw : p + len ≤ 2 ^ 32)

include hp h₁ hw

theorem copyString_spec_none (h : ∀ i, i < len → p + i < userspaceTop →
      acc.allows dir (p + i) = true ∧ s.src dir p i ≠ 0) :
    ∃ r s', copyString dir acc p len s = .ok (r, s') ∧ StringCopied dir acc p len s r s' := by
  refine ⟨_, _, copyString_none hp h₁ hw h, fun a ha => ?_, fun got => ?_, ?_, ?_, ?_, ?_⟩
  · exact CopyState.lt_of_mem_after s dir p ha (by omega)
  · refine iff_of_false (by simp) fun ⟨_, i, _, hi, hu, hz, _⟩ => (h i hi hu).2 hz
  · by_cases htop : userspaceTop < p + len
    · rw [if_pos htop]
      exact iff_of_false (by simp) fun hc => by omega
    · rw [if_neg htop]
      exact iff_of_true rfl ⟨by omega, fun i hi => h i hi (by omega)⟩
  · by_cases htop : userspaceTop < p + len
    · rw [if_pos htop]
      exact iff_of_true rfl (.inr (.inr (.inr ⟨htop, fun i hi => h i (by omega) hi⟩)))
    · rw [if_neg htop]
      refine iff_of_false (by simp) fun hc => ?_
      rcases hc with hc | hc | ⟨i, hi, hu, hf, -⟩ | hc
      · omega
      · omega
      · rw [(h i hi hu).1] at hf
        cases hf
      · omega
  · exact fun got hr => by cases hr
  · exact fun hc => by omega

/-- The first offset at which the loop of `copystr` ends. -/
theorem copyString_spec_some {k : ℕ} (hk : k < len) (hku : p + k < userspaceTop)
    (hend : acc.allows dir (p + k) = false ∨ s.src dir p k = 0)
    (h : ∀ i < k, acc.allows dir (p + i) = true ∧ s.src dir p i ≠ 0) :
    ∃ r s', copyString dir acc p len s = .ok (r, s') ∧ StringCopied dir acc p len s r s' := by
  -- the limit and user space are both longer
  have hlong : ¬ (p + len ≤ userspaceTop ∧
      ∀ i < len, acc.allows dir (p + i) = true ∧ s.src dir p i ≠ 0) := fun hc => by
    have := hc.2 k hk
    rcases hend with hf | hz
    · rw [this.1] at hf
      cases hf
    · exact this.2 hz
  have hwhole : ¬ (userspaceTop < p + len ∧
      ∀ i, p + i < userspaceTop → acc.allows dir (p + i) = true ∧ s.src dir p i ≠ 0) := fun hc => by
    have := hc.2 k hku
    rcases hend with hf | hz
    · rw [this.1] at hf
      cases hf
    · exact this.2 hz
  by_cases hf : acc.allows dir (p + k) = false
  · refine ⟨_, _, copyString_fault hp h₁ hw hk hku hf h, fun a ha => ?_, fun got => ?_, ?_, ?_, ?_,
      ?_⟩
    · exact CopyState.lt_of_mem_faultAt s dir p ha (by omega)
    · refine iff_of_false (by simp) fun ⟨_, i, _, hi, hu, hz, _, hacc⟩ => ?_
      by_cases hik : i < k
      · exact (h i hik).2 hz
      · rw [hacc k (by omega)] at hf
        cases hf
    · exact iff_of_false (by simp) hlong
    · exact iff_of_true rfl (.inr (.inr (.inl ⟨k, hk, hku, hf, h⟩)))
    · exact fun got hr => by cases hr
    · exact fun hc => by omega
  · have hz : s.src dir p k = 0 := hend.resolve_left hf
    have hacc : ∀ i ≤ k, acc.allows dir (p + i) = true := fun i hi => by
      by_cases he : i = k
      · subst he
        simpa using hf
      · exact (h i (by omega)).1
    refine ⟨_, _, copyString_nul hp h₁ hw hk hku hacc hz fun i hi => (h i hi).2, fun a ha => ?_,
      fun got => ?_, ?_, ?_, ?_, ?_⟩
    · exact CopyState.lt_of_mem_after s dir p ha (by omega)
    · constructor
      · intro hgot
        cases hgot
        exact ⟨hw, k, rfl, hk, hku, hz, fun i hi => (h i hi).2, hacc⟩
      · rintro ⟨-, i, rfl, -, -, hzi, hnz, -⟩
        have hle : k ≤ i := by
          by_contra hlt
          exact (h i (by omega)).2 hzi
        have hge : i ≤ k := by
          by_contra hlt
          exact hnz k (by omega) hz
        rw [show i = k by omega]
    · exact iff_of_false (by simp) hlong
    · refine iff_of_false (by simp) fun hc => ?_
      rcases hc with hc | hc | ⟨i, hi, hu, hfi, hpre⟩ | hc
      · omega
      · omega
      · by_cases hik : i ≤ k
        · rw [hacc i hik] at hfi
          cases hfi
        · exact (hpre k (by omega)).2 hz
      · exact hwhole hc
    · intro got hr
      cases hr
      rfl
    · exact fun hc => by omega

end StringSpec

/-- **A string copy** does what it has to. -/
theorem copyString_spec (hp : p < 2 ^ 32) (h₁ : 1 ≤ len) (hlen : len < 2 ^ 32) :
    ∃ r s', copyString dir acc p len s = .ok (r, s') ∧ StringCopied dir acc p len s r s' := by
  by_cases hout : 2 ^ 32 < p + len ∨ userspaceTop ≤ p
  · have htop : userspaceTop = 2 ^ 31 := rfl
    refine ⟨_, _, copyString_outside hp h₁ hlen hout, fun a ha => .inl ha, fun got => ?_, ?_, ?_, ?_,
      fun _ => rfl⟩
    · exact iff_of_false (by simp) fun ⟨_, i, _, _, hu, _⟩ => by omega
    · exact iff_of_false (by simp) fun hc => by omega
    · refine iff_of_true rfl ?_
      rcases hout with hout | hout
      · exact .inl hout
      · exact .inr (.inl hout)
    · exact fun got hr => by cases hr
  · have hin : p < userspaceTop := by omega
    cases hf : Loop.firstIdx (fun i => !acc.allows dir (p + i) || s.src dir p i == 0) 0
      (min len (userspaceTop - p)) with
    | none =>
      refine copyString_spec_none hin h₁ (by omega) fun i hi hu => ?_
      simpa using Loop.firstIdx_eq_none.mp hf i (Nat.zero_le _) (by omega)
    | some k =>
      obtain ⟨-, hk, hend, hlow⟩ := Loop.firstIdx_eq_some.mp hf
      refine copyString_spec_some hin h₁ (by omega) (k := k) (by omega) (by omega) ?_ fun i hi => ?_
      · simpa using hend
      · simpa using hlow i (Nat.zero_le _) hi

end Outcomes

/-- **User copies respect the boundary.** For every user pointer, length, memory and accessibility
of the user addresses, each of the four calls returns and does what it has to. -/
theorem user_copies (acc : UserAccess) {p len : ℕ} (s : CopyState) (hp : p < 2 ^ 32) (h₁ : 1 ≤ len)
    (hlen : len < 2 ^ 32) :
    (∃ r s', copyin acc p len s = .ok (r, s') ∧ BlockCopied .toKernel acc p len s r s') ∧
    (∃ r s', copyout acc p len s = .ok (r, s') ∧ BlockCopied .toUser acc p len s r s') ∧
    (∃ r s', copyinstr acc p len s = .ok (r, s') ∧ StringCopied .toKernel acc p len s r s') ∧
    ∃ r s', copyoutstr acc p len s = .ok (r, s') ∧ StringCopied .toUser acc p len s r s' :=
  ⟨copyBlock_spec hp h₁ hlen, copyBlock_spec hp h₁ hlen, copyString_spec hp h₁ hlen,
    copyString_spec hp h₁ hlen⟩

section Instances

/-- Every address can be accessed. -/
def allAccess : UserAccess := ⟨fun _ => true, fun _ => true⟩

/-- Memory of zero bytes. -/
def zeroMemory : CopyState := ⟨fun _ => 0, fun _ => 0, false, []⟩

/-- The last byte of user space. -/
theorem user_copies_last :
    (∃ r s', copyin allAccess 0x7fffffff 1 zeroMemory = .ok (r, s') ∧
      BlockCopied .toKernel allAccess 0x7fffffff 1 zeroMemory r s') ∧
    (∃ r s', copyout allAccess 0x7fffffff 1 zeroMemory = .ok (r, s') ∧
      BlockCopied .toUser allAccess 0x7fffffff 1 zeroMemory r s') ∧
    (∃ r s', copyinstr allAccess 0x7fffffff 1 zeroMemory = .ok (r, s') ∧
      StringCopied .toKernel allAccess 0x7fffffff 1 zeroMemory r s') ∧
    ∃ r s', copyoutstr allAccess 0x7fffffff 1 zeroMemory = .ok (r, s') ∧
      StringCopied .toUser allAccess 0x7fffffff 1 zeroMemory r s' :=
  user_copies allAccess zeroMemory (by decide) (by decide) (by decide)

/-- **A limit that wraps around**: the string at `0x1000` ends at once, in the limit and in user
space, and the copy fails. -/
theorem not_copyinstr_of_nul : ¬ ∀ p len s, p < 2 ^ 32 → 1 ≤ len → len < 2 ^ 32 →
    ((∃ got s', copyinstr allAccess p len s = .ok (.ok got, s')) ↔
      ∃ i < len, p + i < userspaceTop ∧ s.src .toKernel p i = 0) := by
  intro h
  obtain ⟨got, s', hok⟩ := (h 0x1000 (2 ^ 32 - 1) zeroMemory (by decide) (by decide)
    (by decide)).mpr ⟨0, by decide, by decide, rfl⟩
  rw [copyinstr, copyString_outside (by decide) (by decide) (by decide) (.inl (by decide))] at hok
  cases hok

end Instances

end Os161
