import Os161.Vm.Lookup
import Os161.Vm.Model

set_option autoImplicit false

/-!
# Console input and output

`std_io.c` without the file system: `sys_write` prints the bytes of a user buffer and `sys_read`
stores one byte into it, both through the pointer that the user program passes. The arguments are
arbitrary words.

* `kernelAccess`: an access of the kernel, and the traps it can end with.
* `kgets`, `sysWrite`, `sysRead`: the code.
* `Checked`: what a system call on user memory owes; `Backed`: when it can keep it.
* **`checked_iff`**: when `sys_write` and `sys_read` do.
-/

namespace Os161

open Addrspace

/-- A 32-bit register. -/
abbrev Register : Type := Fin wordSize

/-- The base of `KSEG2`, which is mapped again. -/
def kseg2 : ℕ := 0xc0000000

/-- The size of each of the direct-mapped segments `KSEG0` and `KSEG1`. -/
def ksegSize : ℕ := 0x20000000

/-- The traps that end the kernel: `tm_badfaultfunc` is not set. -/
inductive Trap
  | busError
  | readonlyFault
  | kernelFault
  deriving DecidableEq, Repr

/-- The machine below: whether the bus answers at a physical address, and whether the TLB entry of a
page, once it is there, allows a write. -/
structure Machine where
  bus : ℕ → Bool
  dirty : ℕ → Bool

/-- **An access of the kernel** at the address `a`. In `KSEG0` and `KSEG1` it goes to the bus, and
elsewhere through the TLB, where `vm_fault` has a page only for the segments of the program. -/
def kernelAccess (m : Machine) (as : Addrspace) (a : ℕ) (write : Bool) : Except Trap Unit :=
  if kseg0 ≤ a ∧ a < kseg2 then
    if m.bus (a % ksegSize) then .ok () else .error .busError
  else match as.lookup (pageFrame a) with
  | none => .error .kernelFault
  | some _ =>
    if write = true ∧ m.dirty (pageFrame a) = false then .error .readonlyFault else .ok ()

/-- What a system call did: the bytes it read and wrote through the user's pointer, and its result. -/
structure Outcome where
  reads : List ℕ
  writes : List (ℕ × UInt8)
  result : Except Trap ℤ

/-- `(int)count`. -/
def toInt (count : Register) : ℤ := if count.val < 2 ^ 31 then count else count - (wordSize : ℤ)

/-- The loop of `sys_write`: the addresses read, and whether it got to the end. -/
def writeLoop (m : Machine) (as : Addrspace) (buf : Register) :
    (n i : ℕ) → List ℕ × Except Trap Unit
  | 0, _ => ([], .ok ())
  | n + 1, i =>
    match kernelAccess m as (wadd buf i) false with
    | .error t => ([], .error t)
    | .ok () =>
      let r := writeLoop m as buf n (i + 1)
      (wadd buf i :: r.1, r.2)

/-- `sys_write`. -/
def sysWrite (m : Machine) (as : Addrspace) (fd : ℤ) (buf count : Register) : Outcome :=
  if fd ≠ 1 ∧ fd ≠ 2 then ⟨[], [], .ok (-1)⟩
  else
    let r := writeLoop m as buf (toInt count).toNat 0
    ⟨r.1, [], r.2.map fun _ => toInt count⟩

/-- `kgets`, with the characters that arrive at the console and those before `pos` in the buffer;
`none` waits for more. -/
def kgets (maxlen : ℕ) : (input buf : List UInt8) → Option (List UInt8)
  | [], _ => none
  | ch :: input, buf =>
    if ch = 10 ∨ ch = 13 then some buf
    else if 32 ≤ ch ∧ ch < 127 ∧ buf.length < wsub maxlen 1 then kgets maxlen input (buf ++ [ch])
    else if (ch = 8 ∨ ch = 127) ∧ 0 < buf.length then kgets maxlen input buf.dropLast
    else if ch = 3 then some []
    else if ch = 21 then kgets maxlen input []
    else if ch = 23 then
      kgets maxlen input (((buf.reverse.dropWhile (· = 32)).dropWhile (· ≠ 32)).reverse)
    else kgets maxlen input buf

/-- `sys_read`: `tmp[0]` is stored, whatever `count` is. -/
def sysRead (m : Machine) (as : Addrspace) (fd : ℤ) (buf : Register) (_count : Register)
    (input : List UInt8) : Option Outcome :=
  if fd ≠ 0 ∧ fd ≠ 2 then some ⟨[], [], .ok (-1)⟩
  else do
    let tmp ← kgets 1 input []
    match kernelAccess m as buf true with
    | .error t => return ⟨[], [], .error t⟩
    | .ok () => return ⟨[], [(buf, (tmp ++ [0]).headD 0)], .ok 1⟩

/-- The bytes `[a, a + n)` are in pages of the program's segments. -/
def Backed (as : Addrspace) (a n : ℕ) : Prop :=
  ∀ i < n, a + i < userspaceTop ∧ as.lookup (pageFrame (a + i)) ≠ none

/-- **What a system call owes** for the buffer `[buf, buf + count)`: it touches user space only, an
address that is not backed is an error return, and no address stops the kernel. The write to a page
that is backed and may not be written is left open. -/
structure Checked (as : Addrspace) (buf count : Register) (o : Outcome) : Prop where
  reads : ∀ a ∈ o.reads, a < userspaceTop
  writes : ∀ p ∈ o.writes, p.1 < userspaceTop
  backed : ¬ Backed as buf count → ∃ retval, o.result = .ok retval ∧ retval < 0
  traps : ∀ t, o.result = .error t → t = .readonlyFault ∧ Backed as buf 1

section Lemmas

variable {m : Machine} {as : Addrspace} {fd : ℤ} {buf count : Register} {a n i : ℕ}

/-- An access in user space. -/
theorem kernelAccess_user {write : Bool} (ha : a < userspaceTop) :
    kernelAccess m as a write =
      if as.lookup (pageFrame a) = none then .error .kernelFault
      else if write = true ∧ m.dirty (pageFrame a) = false then .error .readonlyFault
      else .ok () := by
  have hk : ¬ (kseg0 ≤ a ∧ a < kseg2) := fun h => absurd h.1 (not_le.mpr ha)
  unfold kernelAccess
  rw [if_neg hk]
  cases as.lookup (pageFrame a) <;> simp

/-- Where an access of the kernel faults, so does one of `vm_fault`. -/
theorem fault_of_lookup {s : VmState} {id : AsId} {P : Proc}
    (h : P.space.lookup (pageFrame a) = none) : s.fault id P a = s.efault id P := by
  have hno : ∀ seg, findSegment P.space (pageFrame a) = some seg →
      findPte P.space seg (pageFrame a) = none := by
    intro seg hseg
    by_contra hj
    obtain ⟨j, hj⟩ := Option.ne_none_iff_exists'.mp hj
    rw [lookup_eq_some.mpr ⟨seg, hseg, hj⟩] at h
    cases h
  unfold VmState.fault
  cases hseg : findSegment P.space (pageFrame a) with
  | none => simp only [hseg]
  | some seg => simp only [hseg, hno seg hseg]

/-- **`kgets` with room for one byte stores none.** -/
theorem kgets_one {input tmp : List UInt8} (h : kgets 1 input [] = some tmp) : tmp = [] := by
  induction input with
  | nil => cases h
  | cons ch input ih =>
    have hroom : ¬ (32 ≤ ch ∧ ch < 127 ∧ ([] : List UInt8).length < wsub 1 1) :=
      fun hc => absurd hc.2.2 (by decide)
    rw [kgets, if_neg hroom] at h
    simp only [List.length_nil, lt_irrefl, and_false, if_false, List.dropWhile_nil,
      List.reverse_nil] at h
    split_ifs at h
    · exact (Option.some.inj h).symm
    · exact (Option.some.inj h).symm
    all_goals exact ih h

theorem backed_one : Backed as a 1 ↔ a < userspaceTop ∧ as.lookup (pageFrame a) ≠ none := by
  constructor
  · exact fun h => h 0 (by omega)
  · intro h i hi
    obtain rfl : i = 0 := by omega
    exact h

/-- A negative `(int)count` comes from a count of half the words. -/
theorem toInt_neg : toInt count < 0 ↔ 2 ^ 31 ≤ count.val := by
  have := count.isLt
  unfold toInt
  split_ifs <;> unfold wordSize at * <;> omega

/-- **The loop of `sys_write` over backed bytes** reads all of them. -/
theorem writeLoop_backed (m : Machine) (h : ∀ k, i ≤ k → k < i + n → buf.val + k < userspaceTop ∧
    as.lookup (pageFrame (buf.val + k)) ≠ none) :
    (∀ a ∈ (writeLoop m as buf n i).1, a < userspaceTop) ∧ (writeLoop m as buf n i).2 = .ok () := by
  induction n generalizing i with
  | zero => simp [writeLoop]
  | succ n ih =>
    obtain ⟨hu, hl⟩ := h i (le_refl _) (by omega)
    have hw : wadd buf.val i = buf.val + i := wadd_of_lt (lt_trans hu (by decide))
    obtain ⟨hreads, hok⟩ : (∀ a ∈ (writeLoop m as buf n (i + 1)).1, a < userspaceTop) ∧
        (writeLoop m as buf n (i + 1)).2 = .ok () := ih fun k h₁ h₂ => h k (by omega) (by omega)
    rw [writeLoop, hw, kernelAccess_user hu, if_neg hl, if_neg (by simp)]
    refine ⟨fun a ha => ?_, hok⟩
    rcases List.mem_cons.mp ha with rfl | ha
    · exact hu
    · exact hreads a ha

/-- `sys_write` without an access of the user's buffer. -/
theorem checked_of_error {retval : ℤ} (h : retval < 0) : Checked as buf count ⟨[], [], .ok retval⟩ where
  reads := fun a ha => by cases ha
  writes := fun p hp => by cases hp
  backed := fun _ => ⟨retval, rfl, h⟩
  traps := fun t ht => by cases ht

theorem checked_sysWrite :
    Checked as buf count (sysWrite m as fd buf count) ↔
      (fd ≠ 1 ∧ fd ≠ 2) ∨ 2 ^ 31 ≤ count.val ∨ Backed as buf count := by
  unfold sysWrite
  by_cases hfd : fd ≠ 1 ∧ fd ≠ 2
  · rw [if_pos hfd]
    exact iff_of_true (checked_of_error (by decide)) (.inl hfd)
  rw [if_neg hfd]
  by_cases hneg : 2 ^ 31 ≤ count.val
  · have hloop : (toInt count).toNat = 0 := by
      have := toInt_neg.mpr hneg
      omega
    rw [hloop]
    exact iff_of_true (checked_of_error (toInt_neg.mpr hneg)) (.inr (.inl hneg))
  have hcount : (toInt count).toNat = count.val := by
    rw [toInt, if_pos (by omega), Int.toNat_natCast]
  simp only [hfd, hneg, false_or, hcount]
  constructor
  · intro h
    by_contra hb
    obtain ⟨retval, hr, hlt⟩ := h.backed hb
    simp only at hr
    cases hend : (writeLoop m as buf count.val 0).2 with
    | error t =>
      rw [hend] at hr
      cases hr
    | ok _ =>
      rw [hend] at hr
      obtain rfl := Except.ok.inj hr
      exact hneg (toInt_neg.mp hlt)
  · intro hb
    obtain ⟨hreads, hend⟩ : (∀ a ∈ (writeLoop m as buf count.val 0).1, a < userspaceTop) ∧
        (writeLoop m as buf count.val 0).2 = .ok () :=
      writeLoop_backed m fun k _ hk => hb k (by omega)
    rw [hend]
    exact { reads := hreads
            writes := fun p hp => by cases hp
            backed := fun h => absurd hb h
            traps := fun t ht => by cases ht }

theorem checked_sysRead :
    (∀ input o, sysRead m as fd buf count input = some o → Checked as buf count o) ↔
      (fd ≠ 0 ∧ fd ≠ 2) ∨ (Backed as buf 1 ∧ Backed as buf count) := by
  by_cases hfd : fd ≠ 0 ∧ fd ≠ 2
  · simp only [sysRead, if_pos hfd]
    refine iff_of_true (fun input o ho => ?_) (.inl hfd)
    obtain rfl := Option.some.inj ho
    exact checked_of_error (by decide)
  simp only [sysRead, hfd, if_false, false_or]
  constructor
  · intro h
    -- a line arrives
    have hline := h [10]
    rw [show kgets 1 [10] [] = some [] from rfl] at hline
    simp only [Option.bind_eq_bind, Option.bind_some] at hline
    cases hacc : kernelAccess m as buf true with
    | error t =>
      rw [hacc] at hline
      have hc := hline _ rfl
      refine ⟨(hc.traps t rfl).2, ?_⟩
      by_contra hb
      obtain ⟨retval, hr, -⟩ := hc.backed hb
      cases hr
    | ok _ =>
      rw [hacc] at hline
      have hc := hline _ rfl
      have hu : buf.val < userspaceTop := hc.writes _ (List.mem_singleton_self _)
      refine ⟨backed_one.mpr ⟨hu, fun hno => ?_⟩, ?_⟩
      · rw [kernelAccess_user hu, if_pos hno] at hacc
        cases hacc
      · by_contra hb
        obtain ⟨retval, hr, hlt⟩ := hc.backed hb
        obtain rfl := Except.ok.inj hr
        exact absurd hlt (by decide)
  · rintro ⟨hone, hb⟩ input o ho
    obtain ⟨tmp, htmp, ho⟩ := Option.bind_eq_some_iff.mp ho
    obtain ⟨hu, hl⟩ := backed_one.mp hone
    rw [kernelAccess_user hu, if_neg hl] at ho
    by_cases hd : true = true ∧ m.dirty (pageFrame buf) = false
    · rw [if_pos hd] at ho
      obtain rfl := Option.some.inj ho
      exact { reads := fun a ha => by cases ha
              writes := fun p hp => by cases hp
              backed := fun h => absurd hb h
              traps := fun t ht => ⟨(Except.error.inj ht).symm, hone⟩ }
    · rw [if_neg hd] at ho
      obtain rfl := Option.some.inj ho
      exact { reads := fun a ha => by cases ha
              writes := fun p hp => by rw [List.mem_singleton.mp hp]; exact hu
              backed := fun h => absurd hb h
              traps := fun t ht => by cases ht }

/-- **When the console calls are checked.** Another descriptor and a count that is negative as an
`int` are error returns; else every byte of the buffer has to be backed, and for `sys_read` also the
one byte it stores. -/
theorem checked_iff (m : Machine) (as : Addrspace) (fd : ℤ) (buf count : Register) :
    (Checked as buf count (sysWrite m as fd buf count) ↔
      (fd ≠ 1 ∧ fd ≠ 2) ∨ 2 ^ 31 ≤ count.val ∨ Backed as buf count) ∧
    ((∀ input o, sysRead m as fd buf count input = some o → Checked as buf count o) ↔
      (fd ≠ 0 ∧ fd ≠ 2) ∨ (Backed as buf 1 ∧ Backed as buf count)) :=
  ⟨checked_sysWrite, checked_sysRead⟩

end Lemmas

/-- **Kernel memory is printed**, and a pointer to nothing stops the kernel. -/
theorem not_checked_kernelBuffer :
    ¬ Checked asCreate ⟨0x80000000, by decide⟩ ⟨1, by decide⟩
        (sysWrite ⟨fun _ => true, fun _ => true⟩ asCreate 1 ⟨0x80000000, by decide⟩
          ⟨1, by decide⟩) ∧
      (sysWrite ⟨fun _ => true, fun _ => true⟩ asCreate 1 ⟨0x400000, by decide⟩
        ⟨1, by decide⟩).result = .error .kernelFault := by
  refine ⟨fun h => ?_, by decide⟩
  have hread : 0x80000000 < userspaceTop := h.reads 0x80000000 (by decide)
  exact absurd hread (by decide)

end Os161
