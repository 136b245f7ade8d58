import Mathlib.Tactic.Ring
import Os161.Machine.Stop
import Os161.Machine.Word

set_option autoImplicit false

/-!
# Resizeable arrays and their storage

`array_preallocate` doubles a capacity on words until it is large enough, and asks `kmalloc` for that
many pointers, again on words. Doubling can go around, and so can the size in bytes.

* `PtrArray`: `struct array`, and `PtrBlock`: the storage, as large as it was asked for.
* `growTo`: the loop, and `growTo_of_reach`, `growTo_eq_some`: where it ends.
* **`array_preallocate_iff`**: it ends with enough storage if and only if the first capacity that is
  large enough is less than `2 ^ 30`.
-/

namespace Os161

open Transition

/-- A block of the heap: its size in bytes, as it was asked for, and the pointers in it. -/
structure PtrBlock (α : Type) where
  bytes : ℕ
  cell : ℕ → α

/-- `struct array`. -/
structure PtrArray (α : Type) where
  v : Option (PtrBlock α)
  num : ℕ
  max : ℕ

/-- How a call does not return: a failed `ARRAYASSERT`, a loop that goes on, and an access outside the
storage. -/
inductive ArrayStop
  | assert
  | loop
  | outside
  deriving DecidableEq

/-- The two results of the functions. -/
inductive ArrayResult
  | ok
  | ENOMEM
  deriving DecidableEq

namespace PtrArray

variable {α : Type}

/-- `sizeof(void *)`. -/
def ptrSize : ℕ := 4

/-- `n*sizeof(void *)`. -/
def sizeOfPtrs (n : ℕ) : ℕ := n * ptrSize % wordSize

/-- `array_init`. -/
def arrayInit (α : Type) : PtrArray α where
  v := none
  num := 0
  max := 0

/-- The size of the storage; there is none at `NULL`. -/
def bytes (a : PtrArray α) : ℕ :=
  match a.v with
  | some b => b.bytes
  | none => 0

/-- `newmax ? newmax*2 : 4`. -/
def double (newmax : ℕ) : ℕ := if newmax = 0 then 4 else newmax * 2 % wordSize

/-- `while (num > newmax) newmax = newmax ? newmax*2 : 4`, for a number of iterations. -/
def growTo (num : ℕ) : ℕ → ℕ → Option ℕ
  | 0, _ => none
  | fuel + 1, newmax => if newmax < num then growTo num fuel (double newmax) else some newmax

/-- `memcpy(newptr, a->v, n)`. -/
def copyOut (a : PtrArray α) (new : PtrBlock α) (n : ℕ) : Except ArrayStop (PtrBlock α) :=
  if n ≤ a.bytes ∧ n ≤ new.bytes then
    match a.v with
    | some b => .ok { new with cell := fun i => if ptrSize * i < n then b.cell i else new.cell i }
    | none => .ok new
  else .error .outside

/-- `array_preallocate`; `kmalloc` returns a block with any contents, or `NULL`. -/
def arrayPreallocate (fuel : ℕ) (kmalloc : Option (ℕ → α)) (a : PtrArray α) (num : ℕ) :
    Except ArrayStop (ArrayResult × PtrArray α) :=
  if a.max < num then
    match growTo num fuel a.max with
    | none => .error .loop
    | some newmax =>
      match kmalloc with
      | none => .ok (.ENOMEM, a)
      | some cell => do
        let newptr ← a.copyOut ⟨sizeOfPtrs newmax, cell⟩ (sizeOfPtrs a.num)
        return (.ok, { a with v := some newptr, max := newmax })
  else .ok (.ok, a)

/-- The capacity from which the doubling starts. -/
def base (max : ℕ) : ℕ := if max = 0 then 4 else max

/-- **Well-formed arrays**: the elements fit into the storage, whose size is that of `max` pointers. -/
structure Wf (a : PtrArray α) : Prop where
  num_le : a.num ≤ a.max
  bytes_eq : a.bytes = ptrSize * a.max
  bytes_lt : a.bytes < wordSize

theorem Wf.max_lt {a : PtrArray α} (h : a.Wf) : a.max < 2 ^ 30 := by
  have h₁ := h.bytes_eq
  have h₂ := h.bytes_lt
  unfold ptrSize at h₁
  unfold wordSize at h₂
  omega

theorem wf_init (α : Type) : (arrayInit α).Wf :=
  ⟨Nat.le_refl _, rfl, show 0 < wordSize by decide⟩

/-! ## The loop -/

section Grow

variable {num n m k fuel : ℕ}

theorem sizeOfPtrs_of_lt (h : n < 2 ^ 30) : sizeOfPtrs n = ptrSize * n := by
  unfold sizeOfPtrs ptrSize wordSize
  omega

theorem double_of_pos (h : 0 < n) (hlt : n < 2 ^ 31) : double n = n * 2 := by
  unfold double wordSize
  rw [if_neg (by omega), Nat.mod_eq_of_lt (by omega)]

/-- More iterations change nothing. -/
theorem growTo_mono (h : growTo num fuel n = some m) {fuel' : ℕ} (hle : fuel ≤ fuel') :
    growTo num fuel' n = some m := by
  induction fuel generalizing n fuel' with
  | zero => cases h
  | succ fuel ih =>
    obtain ⟨fuel', rfl⟩ := Nat.exists_eq_add_one_of_ne_zero (Nat.ne_zero_of_lt hle)
    unfold growTo at h ⊢
    by_cases hn : n < num
    · rw [if_pos hn] at h ⊢
      exact ih h (Nat.le_of_succ_le_succ hle)
    · rw [if_neg hn] at h ⊢
      exact h

theorem growTo_of_pos (hpos : 0 < n) (hnum : num ≤ n * 2 ^ k) (hlt : n * 2 ^ k < 2 ^ 30) :
    ∃ m, growTo num (k + 1) n = some m ∧ num ≤ m ∧ m < 2 ^ 30 := by
  induction k generalizing n with
  | zero =>
    rw [pow_zero, Nat.mul_one] at hnum hlt
    exact ⟨n, if_neg (Nat.not_lt.mpr hnum), hnum, hlt⟩
  | succ k ih =>
    have hmul : n * 2 ^ (k + 1) = n * 2 * 2 ^ k := by ring
    have hle : n * 2 ≤ n * 2 * 2 ^ k := Nat.le_mul_of_pos_right _ (Nat.two_pow_pos k)
    rw [hmul] at hnum hlt
    by_cases hn : n < num
    · obtain ⟨m, hm, hb⟩ := ih (by omega) hnum hlt
      refine ⟨m, ?_, hb⟩
      rw [growTo, if_pos hn, double_of_pos hpos (by omega), hm]
    · exact ⟨n, if_neg hn, Nat.not_lt.mp hn, by omega⟩

/-- **The loop ends** where a capacity less than `2 ^ 30` is large enough. -/
theorem growTo_of_reach (hnum : num ≤ base n * 2 ^ k) (hlt : base n * 2 ^ k < 2 ^ 30) :
    ∃ m, growTo num (k + 2) n = some m ∧ num ≤ m ∧ m < 2 ^ 30 := by
  by_cases hn : n = 0
  · subst hn
    by_cases h₀ : 0 < num
    · obtain ⟨m, hm, hb⟩ := growTo_of_pos (by decide) hnum hlt
      refine ⟨m, ?_, hb⟩
      rw [growTo, if_pos h₀]
      exact hm
    · exact ⟨0, if_neg h₀, Nat.not_lt.mp h₀, by decide⟩
  · unfold base at hnum hlt
    rw [if_neg hn] at hnum hlt
    obtain ⟨m, hm, hb⟩ := growTo_of_pos (Nat.pos_of_ne_zero hn) hnum hlt
    exact ⟨m, growTo_mono hm (Nat.le_succ _), hb⟩

/-- Up to `2 ^ 29` pointers the loop ends in time. -/
theorem growTo_of_le (hnum : num ≤ 2 ^ 29) (hn : n < num) (hfuel : 32 ≤ fuel) :
    ∃ m, growTo num fuel n = some m ∧ num ≤ m ∧ m < 2 ^ 30 := by
  have hbase : 0 < base n ∧ base n < 2 ^ 29 := by
    unfold base
    split_ifs <;> omega
  have hex : ∃ k, num ≤ base n * 2 ^ k :=
    ⟨29, Nat.le_trans hnum (Nat.le_mul_of_pos_left _ hbase.1)⟩
  have hlast : Nat.find hex ≤ 29 :=
    Nat.find_min' hex (Nat.le_trans hnum (Nat.le_mul_of_pos_left _ hbase.1))
  have hlt : base n * 2 ^ Nat.find hex < 2 ^ 30 := by
    cases hk : Nat.find hex with
    | zero => omega
    | succ k =>
      have hmin := Nat.not_le.mp (Nat.find_min hex (m := k) (by omega))
      rw [pow_succ, ← Nat.mul_assoc]
      omega
  obtain ⟨m, hm, hb⟩ := growTo_of_reach (Nat.find_spec hex) hlt
  exact ⟨m, growTo_mono hm (by omega), hb⟩

/-- The last capacity that was too small. -/
theorem growTo_eq_some (h : growTo num fuel n = some m) (hn : n < num) :
    num ≤ m ∧ ∃ x < num, m = double x := by
  induction fuel generalizing n with
  | zero => cases h
  | succ fuel ih =>
    rw [growTo, if_pos hn] at h
    by_cases hd : double n < num
    · exact ih h hd
    · cases fuel with
      | zero => cases h
      | succ fuel =>
        rw [growTo, if_neg hd] at h
        cases h
        exact ⟨Nat.not_lt.mp hd, n, hn, rfl⟩

/-- A capacity that was found below `2 ^ 30` was reached without going around. -/
theorem growTo_reach (h : growTo num fuel n = some m) (hm : m < 2 ^ 30) (hn : n < num) :
    ∃ k, m = base n * 2 ^ k := by
  induction fuel generalizing n with
  | zero => cases h
  | succ fuel ih =>
    have hle := (growTo_eq_some h hn).1
    rw [growTo, if_pos hn] at h
    have hb : base (double n) = base n * if n = 0 then 1 else 2 := by
      by_cases h₀ : n = 0
      · subst h₀
        rfl
      · rw [if_neg h₀, double_of_pos (Nat.pos_of_ne_zero h₀) (by omega)]
        unfold base
        rw [if_neg h₀, if_neg (by omega)]
    have hpos : double n = base (double n) := by
      by_cases h₀ : n = 0
      · subst h₀
        rfl
      · unfold base
        rw [if_neg]
        rw [double_of_pos (Nat.pos_of_ne_zero h₀) (by omega)]
        omega
    by_cases hd : double n < num
    · obtain ⟨k, hk⟩ := ih h hd
      rw [hk, hb]
      split_ifs
      · exact ⟨k, by ring⟩
      · exact ⟨k + 1, by ring⟩
    · cases fuel with
      | zero => cases h
      | succ fuel =>
        rw [growTo, if_neg hd] at h
        cases h
        rw [hpos, hb]
        split_ifs
        · exact ⟨0, by ring⟩
        · exact ⟨1, by ring⟩

/-- **A capacity of `2 ^ 30` pointers or more**: its size in bytes goes around, and the block is too
small for what was asked for. -/
theorem sizeOfPtrs_lt (h : growTo num fuel n = some m) (hn : n < num) (hnum : num < wordSize)
    (hm : 2 ^ 30 ≤ m) : sizeOfPtrs m < ptrSize * num := by
  obtain ⟨hle, x, hx, rfl⟩ := growTo_eq_some h hn
  unfold sizeOfPtrs ptrSize
  unfold double wordSize at *
  split_ifs at * <;> omega

/-- The capacities of an array that was empty: powers of two and nothing. -/
def IsCapacity (n : ℕ) : Prop := n = 0 ∨ ∃ i, 2 ≤ i ∧ i ≤ 31 ∧ n = 2 ^ i

theorem IsCapacity.double (h : IsCapacity n) : IsCapacity (double n) := by
  rcases h with rfl | ⟨i, h₂, h₃₁, rfl⟩
  · exact .inr ⟨2, by decide, by decide, rfl⟩
  · have hpos : 2 ^ i ≠ 0 := (Nat.two_pow_pos i).ne'
    unfold PtrArray.double
    rw [if_neg hpos, ← pow_succ]
    rcases Nat.lt_or_eq_of_le h₃₁ with hlt | rfl
    · refine .inr ⟨i + 1, by omega, hlt, Nat.mod_eq_of_lt ?_⟩
      exact Nat.pow_lt_pow_right (by decide) (by omega)
    · exact .inl rfl

/-- **The loop does not end** when more than `2 ^ 31` pointers are asked for: the capacities go around
among the powers of two. -/
theorem growTo_eq_none (hnum : 2 ^ 31 < num) (hn : IsCapacity n) : growTo num fuel n = none := by
  induction fuel generalizing n with
  | zero => rfl
  | succ fuel ih =>
    have hlt : n < num := by
      rcases hn with rfl | ⟨i, -, h₃₁, rfl⟩
      · omega
      · exact Nat.lt_of_le_of_lt (Nat.pow_le_pow_right (by decide) h₃₁) hnum
    rw [growTo, if_pos hlt]
    exact ih hn.double

end Grow

/-! ## The function -/

section Preallocate

variable {a a' : PtrArray α} {num fuel : ℕ} {cell : ℕ → α}
  {r : ArrayResult}

/-- What a successful call leaves: storage for `num` pointers, with the elements that were there. -/
structure Grown (a a' : PtrArray α) (num : ℕ) : Prop where
  wf : a'.Wf
  le_max : num ≤ a'.max
  num_eq : a'.num = a.num
  keep : ∀ b, a.v = some b → ∃ b', a'.v = some b' ∧ ∀ i < a.num, b'.cell i = b.cell i

/-- `memcpy` of the elements into a larger block. -/
theorem copyOut_of_wf (h : a.Wf) (new : PtrBlock α) (hnew : ptrSize * a.num ≤ new.bytes) :
    ∃ b, a.copyOut new (sizeOfPtrs a.num) = .ok b ∧ b.bytes = new.bytes ∧
      ∀ b₀, a.v = some b₀ → ∀ i < a.num, b.cell i = b₀.cell i := by
  have hfit : ptrSize * a.num ≤ a.bytes := by
    rw [h.bytes_eq]
    exact Nat.mul_le_mul_left _ h.num_le
  unfold copyOut
  rw [sizeOfPtrs_of_lt (Nat.lt_of_le_of_lt h.num_le h.max_lt), if_pos ⟨hfit, hnew⟩]
  cases hv : a.v with
  | none => exact ⟨new, rfl, rfl, fun b₀ hb₀ => by cases hb₀⟩
  | some b =>
    refine ⟨_, rfl, rfl, fun b₀ hb₀ i hi => ?_⟩
    cases hb₀
    exact if_pos (Nat.mul_lt_mul_of_pos_left hi (by decide))

/-- **`array_preallocate`** where the loop ends below `2 ^ 30`. -/
theorem arrayPreallocate_spec (kmalloc : Option (ℕ → α)) (h : a.Wf)
    (hgrow : a.max < num → ∃ m, growTo num fuel a.max = some m ∧ num ≤ m ∧ m < 2 ^ 30) :
    ∃ r a', arrayPreallocate fuel kmalloc a num = .ok (r, a') ∧ (r = .ok → Grown a a' num) ∧
      (r = .ENOMEM → a' = a ∧ kmalloc = none) := by
  unfold arrayPreallocate
  by_cases hlt : a.max < num
  · obtain ⟨m, hm, hle, hb⟩ := hgrow hlt
    rw [if_pos hlt, hm]
    cases kmalloc with
    | none => exact ⟨.ENOMEM, a, rfl, nofun, fun _ => ⟨rfl, rfl⟩⟩
    | some cell =>
      have hsize : sizeOfPtrs m = ptrSize * m := sizeOfPtrs_of_lt hb
      have hnum : a.num ≤ m := Nat.le_trans h.num_le (Nat.le_of_lt (Nat.lt_of_lt_of_le hlt hle))
      obtain ⟨b, hcopy, hbytes, hkeep⟩ :=
        copyOut_of_wf h ⟨sizeOfPtrs m, cell⟩ (hsize ▸ Nat.mul_le_mul_left _ hnum)
      refine ⟨.ok, { a with v := some b, max := m }, ?_,
        fun _ => ⟨⟨hnum, hbytes.trans hsize, ?_⟩, hle, rfl, fun b₀ hb₀ => ⟨b, rfl, hkeep b₀ hb₀⟩⟩,
        nofun⟩
      · change (a.copyOut _ _ >>= _) = _
        rw [hcopy]
        rfl
      · change b.bytes < wordSize
        rw [hbytes]
        exact Nat.mod_lt _ (by decide)
  · rw [if_neg hlt]
    exact ⟨.ok, a, rfl, fun _ => ⟨h, Nat.not_lt.mp hlt, rfl, fun b hb => ⟨b, hb, fun _ _ => rfl⟩⟩,
      nofun⟩

/-- **Enough storage** is there only if the capacity was reached below `2 ^ 30`. -/
theorem reach_of_arrayPreallocate (hnum : num < wordSize)
    (h : arrayPreallocate fuel (some cell) a num = .ok (r, a'))
    (hr : r = .ok → ptrSize * num ≤ a'.bytes) (hlt : a.max < num) :
    ∃ k, num ≤ base a.max * 2 ^ k ∧ base a.max * 2 ^ k < 2 ^ 30 := by
  unfold arrayPreallocate at h
  rw [if_pos hlt] at h
  cases hm : growTo num fuel a.max with
  | none =>
    rw [hm] at h
    cases h
  | some m =>
    rw [hm] at h
    obtain ⟨b, hb, h⟩ := bind_eq_ok.mp h
    cases h
    have hbytes : b.bytes = sizeOfPtrs m := by
      unfold copyOut at hb
      split_ifs at hb
      cases hv : a.v with
      | none =>
        rw [hv] at hb
        cases hb
        rfl
      | some b₀ =>
        rw [hv] at hb
        cases hb
        rfl
    have hsmall : m < 2 ^ 30 := by
      by_contra hge
      refine absurd (hr rfl) (Nat.not_le.mpr ?_)
      change b.bytes < _
      rw [hbytes]
      exact sizeOfPtrs_lt hm hlt hnum (Nat.not_lt.mp hge)
    obtain ⟨k, rfl⟩ := growTo_reach hm hsmall hlt
    exact ⟨k, (growTo_eq_some hm hlt).1, hsmall⟩

/-- **`array_preallocate` ends with enough storage**, whatever `kmalloc` returns, if and only if there
is enough already or the doubling is large enough at a capacity less than `2 ^ 30`. -/
theorem array_preallocate_iff [Inhabited α] (h : a.Wf) (hnum : num < wordSize) :
    (∀ kmalloc, ∃ fuel r a', arrayPreallocate fuel kmalloc a num = .ok (r, a') ∧
      (r = .ok → ptrSize * num ≤ a'.bytes ∧ a'.bytes = ptrSize * a'.max)) ↔
      num ≤ a.max ∨ ∃ k, num ≤ base a.max * 2 ^ k ∧ base a.max * 2 ^ k < 2 ^ 30 := by
  constructor
  · intro hall
    by_cases hlt : a.max < num
    · obtain ⟨fuel, r, a', hcall, hr⟩ := hall (some fun _ => default)
      exact .inr (reach_of_arrayPreallocate hnum hcall (fun e => (hr e).1) hlt)
    · exact .inl (Nat.not_lt.mp hlt)
  · intro hreach kmalloc
    have hgrow : ∃ fuel, a.max < num →
        ∃ m, growTo num fuel a.max = some m ∧ num ≤ m ∧ m < 2 ^ 30 := by
      rcases hreach with hle | ⟨k, hk, hb⟩
      · exact ⟨0, fun hlt => absurd hle (Nat.not_le.mpr hlt)⟩
      · exact ⟨k + 2, fun _ => growTo_of_reach hk hb⟩
    obtain ⟨fuel, hgrow⟩ := hgrow
    obtain ⟨r, a', hcall, hok, -⟩ := arrayPreallocate_spec kmalloc h hgrow
    refine ⟨fuel, r, a', hcall, fun hr => ?_⟩
    have hg := hok hr
    exact ⟨hg.wf.bytes_eq ▸ Nat.mul_le_mul_left _ hg.le_max, hg.wf.bytes_eq⟩

/-- One pointer more than `2 ^ 29` in an empty array: the block that `kmalloc` was asked for has no
bytes. -/
theorem array_preallocate_wraps :
    ¬ ∀ (a : PtrArray ℕ) (num : ℕ), a.Wf → num < wordSize → ∀ kmalloc, ∃ fuel r a',
      arrayPreallocate fuel kmalloc a num = .ok (r, a') ∧
        (r = .ok → ptrSize * num ≤ a'.bytes ∧ a'.bytes = ptrSize * a'.max) := by
  intro hall
  obtain ⟨fuel, r, a', hcall, hr⟩ :=
    hall (arrayInit ℕ) (2 ^ 29 + 1) (wf_init ℕ) (by decide) (some fun _ => 0)
  obtain ⟨k, hk, hlt⟩ :=
    reach_of_arrayPreallocate (by decide) hcall (fun e => (hr e).1) (by decide)
  have hpow : base (arrayInit ℕ).max * 2 ^ k = 2 ^ (k + 2) := by
    change 4 * 2 ^ k = _
    ring
  rw [hpow] at hk hlt
  have h₁ := (Nat.pow_lt_pow_iff_right (by decide : 1 < 2)).mp hlt
  have h₂ := (Nat.pow_lt_pow_iff_right (by decide : 1 < 2)).mp (Nat.lt_of_succ_le hk)
  omega

/-- The array is grown to its first four pointers. -/
theorem array_preallocate_first :
    ∃ fuel r a', arrayPreallocate fuel (some fun _ => 0) (arrayInit ℕ) 3 = .ok (r, a') ∧
      (r = .ok → ptrSize * 3 ≤ a'.bytes ∧ a'.bytes = ptrSize * a'.max) :=
  (array_preallocate_iff (wf_init ℕ) (by decide)).mpr (.inr ⟨0, by decide, by decide⟩)
    (some fun _ => 0)

end Preallocate

end PtrArray

end Os161
