import Mathlib.Algebra.Ring.Nat
import Mathlib.Tactic.Common

set_option autoImplicit false

/-!
# Buffers

A buffer is a function on byte positions. Its length is that of the array it models and appears in
the statements that need it.

* `blit`: `memmove` between two buffers; `blit_blit`: a copy in two pieces.
* `word`, `setWord`: big-endian 32-bit words in a buffer; `word_setWord`: the round trip.
-/

/-- The bytes of an array. -/
abbrev Buffer : Type := ℕ → UInt8

namespace Buffer

/-- `memmove(dst + d, src + s, n)`. -/
def blit (dst : Buffer) (d n : ℕ) (src : Buffer) (s : ℕ) : Buffer :=
  fun x => if d ≤ x ∧ x < d + n then src (s + (x - d)) else dst x

/-- The two buffers agree on the first `n` bytes. -/
def EqOn (n : ℕ) (a b : Buffer) : Prop := ∀ o < n, a o = b o

/-- The 32-bit word number `i`. -/
def word (b : Buffer) (i : ℕ) : ℕ :=
  (((b (4 * i)).toNat * 256 + (b (4 * i + 1)).toNat) * 256 + (b (4 * i + 2)).toNat) * 256 +
    (b (4 * i + 3)).toNat

/-- Word number `i` is replaced. -/
def setWord (b : Buffer) (i w : ℕ) : Buffer :=
  fun x => if x / 4 = i then UInt8.ofNat (w / 256 ^ (3 - x % 4)) else b x

section Lemmas

variable {dst src a b : Buffer} {d n m s i j w x : ℕ}

theorem blit_of_mem (h : d ≤ x) (h' : x < d + n) : blit dst d n src s x = src (s + (x - d)) :=
  if_pos ⟨h, h'⟩

theorem blit_of_not_mem (h : x < d ∨ d + n ≤ x) : blit dst d n src s x = dst x :=
  if_neg (by omega)

@[simp] theorem blit_zero : blit dst d 0 src s = dst := by
  funext x
  exact blit_of_not_mem (by omega)

/-- **A copy in two pieces** is one copy. -/
theorem blit_blit : blit (blit dst d n src s) (d + n) m src (s + n) = blit dst d (n + m) src s := by
  funext x
  unfold blit
  by_cases h₁ : d ≤ x ∧ x < d + n
  · rw [if_neg (by omega), if_pos h₁, if_pos (by omega)]
  · by_cases h₂ : d + n ≤ x ∧ x < d + n + m
    · rw [if_pos h₂, if_pos (by omega)]
      congr 1
      omega
    · rw [if_neg h₂, if_neg h₁, if_neg (by omega)]

theorem blit_congr {src' : Buffer} {s' : ℕ} (h : ∀ o < n, src (s + o) = src' (s' + o)) :
    blit dst d n src s = blit dst d n src' s' := by
  funext x
  unfold blit
  split_ifs with hx
  · exact h (x - d) (by omega)
  · rfl

theorem blit_eqOn_blit {dst' : Buffer} (h : EqOn m dst dst') :
    EqOn m (blit dst d n src s) (blit dst' d n src s) := by
  intro o ho
  unfold blit
  split_ifs
  · rfl
  · exact h o ho

theorem EqOn.symm (h : EqOn n a b) : EqOn n b a := fun o ho => (h o ho).symm

theorem EqOn.trans {c : Buffer} (h : EqOn n a b) (h' : EqOn n b c) : EqOn n a c :=
  fun o ho => (h o ho).trans (h' o ho)

/-- The whole of a buffer is copied. -/
theorem blit_eqOn : EqOn n (blit dst 0 n src 0) src := by
  intro o ho
  rw [blit_of_mem (Nat.zero_le o) (by omega), Nat.zero_add, Nat.sub_zero]

theorem word_congr (h : EqOn n a b) (hi : 4 * i + 4 ≤ n) : word a i = word b i := by
  unfold word
  rw [h _ (by omega), h _ (by omega), h _ (by omega), h _ (by omega)]

theorem word_zero : word (fun _ => 0) i = 0 := by simp [word]

theorem setWord_apply {c : ℕ} (hc : c < 4) :
    setWord b i w (4 * j + c) =
      if j = i then UInt8.ofNat (w / 256 ^ (3 - c)) else b (4 * j + c) := by
  unfold setWord
  rw [show (4 * j + c) / 4 = j by omega, show (4 * j + c) % 4 = c by omega]

/-- **A word reads back as it was written**, and the others stay. -/
theorem word_setWord (hw : w < 2 ^ 32) : word (setWord b i w) j = if j = i then w else word b j := by
  have h0 := setWord_apply (b := b) (w := w) (i := i) (j := j) (c := 0) (by omega)
  rw [Nat.add_zero] at h0
  unfold word
  rw [h0, setWord_apply (by omega), setWord_apply (by omega), setWord_apply (by omega)]
  split_ifs
  · simp only [UInt8.toNat_ofNat']
    omega
  · rfl

end Lemmas

end Buffer
