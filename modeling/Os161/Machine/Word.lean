import Mathlib.Algebra.Ring.Nat
import Mathlib.Tactic.Common

set_option autoImplicit false

/-!
# Machine words, addresses and the layout of physical memory

`vaddr_t`, `paddr_t` and `size_t` are 32-bit unsigned words, modelled as natural numbers with the
reduction written out where the code can wrap.

* `wadd`, `wsub`: word arithmetic; `pageFrame`: masking with `PAGE_FRAME`.
* `RamLayout`: what `ram_bootstrap` leaves behind, the free physical memory.
-/

namespace Os161

/-- `PAGE_SIZE`. -/
def pageSize : ℕ := 4096

/-- The number of values of a 32-bit word. -/
def wordSize : ℕ := 2 ^ 32

/-- `MIPS_KSEG0`, the base of the direct-mapped kernel segment. -/
def kseg0 : ℕ := 0x80000000

/-- `USERSPACETOP`, one past the last user address. -/
def userspaceTop : ℕ := kseg0

/-- `USERSTACK`. -/
def userStack : ℕ := userspaceTop

/-- `a + b` on words. -/
def wadd (a b : ℕ) : ℕ := (a + b) % wordSize

/-- `a - b` on words. -/
def wsub (a b : ℕ) : ℕ := (a + (wordSize - b % wordSize)) % wordSize

/-- `DIVROUNDUP` on words. -/
def divroundup (a b : ℕ) : ℕ := wsub (wadd a b) 1 / b

/-- `a & PAGE_FRAME`: the low 12 bits cleared, and on a wider integer the bits above 31 as well. -/
def pageFrame (a : ℕ) : ℕ := a % wordSize / pageSize * pageSize

/-- `a & ~PAGE_FRAME`: the offset inside the page. -/
def pageOffset (a : ℕ) : ℕ := a % pageSize

/-- `PADDR_TO_KVADDR`. -/
def paddrToKvaddr (paddr : ℕ) : ℕ := wadd paddr kseg0

theorem pageSize_pos : 0 < pageSize := by decide

theorem wsub_of_le {a b : ℕ} (h : b ≤ a) (ha : a < wordSize) : wsub a b = a - b := by
  unfold wsub
  rw [Nat.mod_eq_of_lt (show b < wordSize by omega),
    show a + (wordSize - b) = (a - b) + wordSize by omega, Nat.add_mod_right,
    Nat.mod_eq_of_lt (by omega)]

/-- Subtracting the larger word wraps around. -/
theorem wsub_of_lt {a b : ℕ} (h : a < b) (hb : b < wordSize) : wsub a b = wordSize - (b - a) := by
  unfold wsub
  rw [Nat.mod_eq_of_lt hb, Nat.mod_eq_of_lt (by omega)]
  omega

theorem wadd_of_lt {a b : ℕ} (h : a + b < wordSize) : wadd a b = a + b := Nat.mod_eq_of_lt h

theorem wsub_wadd {a b : ℕ} (ha : a < wordSize) : wsub (wadd a b) b = a := by
  unfold wsub wadd wordSize at *
  omega

theorem pageFrame_eq {a : ℕ} (h : a < wordSize) : pageFrame a = a - a % pageSize := by
  unfold pageFrame pageSize at *
  rw [Nat.mod_eq_of_lt h]
  omega

theorem pageFrame_dvd (a : ℕ) : pageSize ∣ pageFrame a := ⟨_, Nat.mul_comm _ _⟩

theorem pageFrame_le {a : ℕ} (h : a < wordSize) : pageFrame a ≤ a := by
  rw [pageFrame_eq h]; omega

/-- A word is its page and its offset. -/
theorem pageFrame_add_pageOffset {a : ℕ} (h : a < wordSize) : pageFrame a + pageOffset a = a := by
  rw [pageFrame_eq h]
  unfold pageOffset pageSize
  omega

theorem pageFrame_of_dvd {a : ℕ} (h : a < wordSize) (hd : pageSize ∣ a) : pageFrame a = a := by
  rw [pageFrame_eq h, Nat.mod_eq_zero_of_dvd hd, Nat.sub_zero]

/-- **The free physical memory**: `firstpaddr` is page-aligned (`start.S` rounds it up past the
kernel image and the boot stack) and `ram_bootstrap` clips the memory to 512 MB. -/
structure RamLayout where
  firstpaddr : ℕ
  lastpaddr : ℕ
  firstpaddr_pos : 0 < firstpaddr
  firstpaddr_dvd : pageSize ∣ firstpaddr
  le : firstpaddr ≤ lastpaddr
  lastpaddr_le : lastpaddr ≤ 512 * 1024 * 1024

namespace RamLayout

variable (ram : RamLayout)

/-- `ram_frames`. -/
def ramFrames : ℕ := (ram.lastpaddr - ram.firstpaddr) / pageSize

/-- The address of frame `k`: `firstpaddr + (k*PAGE_SIZE)`. -/
def frameAddr (k : ℕ) : ℕ := ram.firstpaddr + k * pageSize

/-- The frame of an address: `(paddr - firstpaddr)/PAGE_SIZE`, on words. -/
def frameIndex (paddr : ℕ) : ℕ := wsub paddr ram.firstpaddr / pageSize

theorem frameAddr_lt {k : ℕ} (h : k < ram.ramFrames) : ram.frameAddr k < ram.lastpaddr := by
  have := ram.le
  have : (k + 1) * pageSize ≤ ram.lastpaddr - ram.firstpaddr :=
    Nat.le_trans (Nat.mul_le_mul_right _ h) (Nat.div_mul_le_self _ _)
  unfold frameAddr pageSize at *
  omega

theorem frameAddr_add_le {k : ℕ} (h : k < ram.ramFrames) :
    ram.frameAddr k + pageSize ≤ ram.lastpaddr := by
  have := ram.le
  have : (k + 1) * pageSize ≤ ram.lastpaddr - ram.firstpaddr :=
    Nat.le_trans (Nat.mul_le_mul_right _ h) (Nat.div_mul_le_self _ _)
  unfold frameAddr pageSize at *
  omega

theorem frameAddr_ne_zero (k : ℕ) : ram.frameAddr k ≠ 0 := by
  have := ram.firstpaddr_pos
  unfold frameAddr
  omega

theorem frameAddr_injective : Function.Injective ram.frameAddr := by
  intro a b h
  unfold frameAddr pageSize at h
  omega

theorem frameAddr_dvd (k : ℕ) : pageSize ∣ ram.frameAddr k :=
  (Nat.dvd_add_right ram.firstpaddr_dvd).mpr ⟨k, Nat.mul_comm _ _⟩

@[simp] theorem frameAddr_inj {a b : ℕ} : ram.frameAddr a = ram.frameAddr b ↔ a = b :=
  ram.frameAddr_injective.eq_iff

theorem frameIndex_add {k o : ℕ} (h : k < ram.ramFrames) (ho : o < pageSize) :
    ram.frameIndex (ram.frameAddr k + o) = k := by
  have h₁ := ram.frameAddr_add_le h
  have h₂ := ram.lastpaddr_le
  unfold frameIndex
  rw [wsub_of_le (by unfold frameAddr; omega) (by unfold wordSize; omega)]
  unfold frameAddr pageSize at *
  omega

@[simp] theorem frameIndex_frameAddr {k : ℕ} (h : k < ram.ramFrames) :
    ram.frameIndex (ram.frameAddr k) = k := by
  simpa using ram.frameIndex_add h pageSize_pos

theorem ramFrames_le : ram.ramFrames ≤ 2 ^ 17 := by
  have := ram.lastpaddr_le
  unfold ramFrames pageSize
  omega

end RamLayout

end Os161
