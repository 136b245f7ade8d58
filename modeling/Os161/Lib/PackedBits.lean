import Os161.Lib.Loop
import Mathlib.Algebra.Ring.Nat
import Mathlib.Data.Finset.Filter
import Mathlib.Data.Finset.Range
import Mathlib.Data.Finset.Card

set_option autoImplicit false

/-!
# Bits packed in words

An array of words of `w` bits, modelled as a function on indices, is a set of bit numbers: bit `i`
is bit `i % w` of word `i / w`.

* `mem_insert`, `mem_erase`: setting and clearing one bit through its mask.
* `scan`: the search that skips the full words and then looks for a clear bit of the first other
  word; it finds the first clear bit (**`scan_eq_some`**) and fails when there is none
  (**`scan_eq_none`**).
-/

namespace PackedBits

variable {w : ℕ} {v : ℕ → BitVec w} {i j o : ℕ}

/-- `1 << o`. -/
def mask (w o : ℕ) : BitVec w := 1#w <<< o

/-- Bit `i` of the array. -/
def mem (v : ℕ → BitVec w) (i : ℕ) : Bool := (v (i / w)).getLsbD (i % w)

/-- Bit `i` is set. -/
def insert (v : ℕ → BitVec w) (i : ℕ) : ℕ → BitVec w :=
  Function.update v (i / w) (v (i / w) ||| mask w (i % w))

/-- Bit `i` is cleared. -/
def erase (v : ℕ → BitVec w) (i : ℕ) : ℕ → BitVec w :=
  Function.update v (i / w) (v (i / w) &&& ~~~mask w (i % w))

/-! ## One word -/

theorem getLsbD_mask (ho : o < w) : (mask w o).getLsbD j = decide (o = j) := by
  rw [mask, ← BitVec.twoPow_eq, BitVec.getLsbD_twoPow, decide_eq_true ho, Bool.true_and]

/-- A mask selects its bit. -/
theorem and_mask_eq_zero {x : BitVec w} (ho : o < w) :
    x &&& mask w o = 0#w ↔ x.getLsbD o = false := by
  rw [mask, ← BitVec.twoPow_eq, BitVec.and_twoPow]
  cases x.getLsbD o with
  | false => simp
  | true =>
    simp only [if_true, Bool.true_eq_false, iff_false]
    intro h
    have := congrArg (fun y => y.getLsbD o) h
    simp [ho] at this

/-- A word is full or has a clear bit. -/
theorem ne_allOnes_iff {x : BitVec w} :
    x ≠ BitVec.allOnes w ↔ ∃ o < w, x.getLsbD o = false := by
  constructor
  · intro h
    by_contra hc
    push Not at hc
    refine h (BitVec.eq_of_getLsbD_eq fun o ho => ?_)
    rw [BitVec.getLsbD_allOnes, decide_eq_true ho]
    exact Bool.ne_false_iff.mp (hc o ho)
  · rintro ⟨o, ho, hx⟩ rfl
    rw [BitVec.getLsbD_allOnes, decide_eq_true ho] at hx
    exact Bool.noConfusion hx

/-! ## The array -/

/-- The number of a bit of a word. -/
theorem mem_word (ho : o < w) : mem v (i * w + o) = (v i).getLsbD o := by
  have hw : 0 < w := Nat.zero_lt_of_lt ho
  rw [mem, Nat.mul_comm, Nat.mul_add_div hw, Nat.div_eq_of_lt ho, Nat.add_zero, Nat.mul_add_mod,
    Nat.mod_eq_of_lt ho]

/-- Two bits of one word are the same bit or have different masks. -/
theorem mod_eq_iff (h : i / w = j / w) : i % w = j % w ↔ i = j := by
  constructor
  · intro hm
    rw [← Nat.div_add_mod i w, ← Nat.div_add_mod j w, h, hm]
  · rintro rfl
    rfl

theorem mem_insert (hw : 0 < w) : mem (insert v i) j = (decide (i = j) || mem v j) := by
  unfold mem insert
  by_cases h : i / w = j / w
  · rw [h, Function.update_self, BitVec.getLsbD_or, getLsbD_mask (Nat.mod_lt _ hw), Bool.or_comm]
    simp only [mod_eq_iff h]
  · have hne : i ≠ j := fun e => h (e ▸ rfl)
    rw [Function.update_of_ne (Ne.symm h), decide_eq_false hne, Bool.false_or]

theorem mem_erase (hw : 0 < w) : mem (erase v i) j = (!decide (i = j) && mem v j) := by
  unfold mem erase
  by_cases h : i / w = j / w
  · rw [h, Function.update_self, BitVec.getLsbD_and, BitVec.getLsbD_not,
      getLsbD_mask (Nat.mod_lt _ hw), decide_eq_true (Nat.mod_lt j hw), Bool.true_and, Bool.and_comm]
    simp only [mod_eq_iff h]
  · have hne : i ≠ j := fun e => h (e ▸ rfl)
    rw [Function.update_of_ne (Ne.symm h), decide_eq_false hne, Bool.not_false, Bool.true_and]

/-- Setting a bit writes one word. -/
theorem insert_of_ne {k : ℕ} (h : k ≠ i / w) : insert v i k = v k := Function.update_of_ne h _ _

theorem erase_of_ne {k : ℕ} (h : k ≠ i / w) : erase v i k = v k := Function.update_of_ne h _ _

/-! ## The scan -/

/-- The first word among `n` that is not full, and its first clear bit. -/
def scan (v : ℕ → BitVec w) (n : ℕ) : Option (ℕ × ℕ) :=
  (Loop.firstIdx (fun ix => v ix != BitVec.allOnes w) 0 n).bind fun ix =>
    (Loop.firstIdx (fun o => v ix &&& mask w o == 0#w) 0 w).map fun o => (ix, o)

/-- A word that is not full has a first clear bit. -/
theorem exists_firstIdx {x : BitVec w} (h : x ≠ BitVec.allOnes w) :
    ∃ o, Loop.firstIdx (fun o => x &&& mask w o == 0#w) 0 w = some o ∧ o < w ∧
      x.getLsbD o = false ∧ ∀ k < o, x.getLsbD k = true := by
  cases hf : Loop.firstIdx (fun o => x &&& mask w o == 0#w) 0 w with
  | none =>
    obtain ⟨o, ho, hx⟩ := ne_allOnes_iff.mp h
    have := Loop.firstIdx_eq_none.mp hf o (Nat.zero_le _) (by omega)
    rw [(and_mask_eq_zero ho).mpr hx] at this
    simp at this
  | some o =>
    obtain ⟨-, ho, hz, hlow⟩ := Loop.firstIdx_eq_some.mp hf
    have ho' : o < w := by omega
    refine ⟨o, rfl, ho', (and_mask_eq_zero ho').mp (eq_of_beq hz), fun k hk => ?_⟩
    have := hlow k (Nat.zero_le _) hk
    rw [beq_eq_false_iff_ne, Ne, and_mask_eq_zero (by omega)] at this
    exact Bool.ne_false_iff.mp this

/-- **The scan finds the first clear bit**, in the words it covers. -/
theorem scan_eq_some {n ix : ℕ} (h : scan v n = some (ix, o)) :
    ix < n ∧ o < w ∧ mem v (ix * w + o) = false ∧ ∀ k < ix * w + o, mem v k = true := by
  obtain ⟨ix', hix, h⟩ := Option.bind_eq_some_iff.mp h
  obtain ⟨-, hlt, hne, hfull⟩ := Loop.firstIdx_eq_some.mp hix
  obtain ⟨o', ho', hlt', hclear, hlow⟩ := exists_firstIdx (bne_iff_ne.mp hne)
  rw [ho'] at h
  cases h
  refine ⟨by omega, hlt', (mem_word hlt').trans hclear, fun k hk => ?_⟩
  have hw : 0 < w := Nat.zero_lt_of_lt hlt'
  by_cases hc : k / w = ix
  · have hko : k % w < o := by
      have := Nat.div_add_mod k w
      rw [hc, Nat.mul_comm] at this
      omega
    rw [mem, hc]
    exact hlow _ hko
  · -- the words before the one found are full
    have hkx : k / w < ix := by
      refine lt_of_le_of_ne (Nat.lt_succ_iff.mp ?_) hc
      rw [Nat.div_lt_iff_lt_mul hw, Nat.succ_mul]
      omega
    have := hfull (k / w) (Nat.zero_le _) hkx
    rw [bne_eq_false_iff_eq] at this
    rw [mem, this, BitVec.getLsbD_allOnes, decide_eq_true (Nat.mod_lt k hw)]

/-- **The scan fails when every bit is set.** -/
theorem scan_eq_none {n : ℕ} (h : scan v n = none) : ∀ k < n * w, mem v k = true := by
  intro k hk
  have hw : 0 < w := Nat.pos_of_ne_zero fun e => by subst e; omega
  cases hix : Loop.firstIdx (fun ix => v ix != BitVec.allOnes w) 0 n with
  | none =>
    have := Loop.firstIdx_eq_none.mp hix (k / w) (Nat.zero_le _)
      (by rw [Nat.zero_add]; exact (Nat.div_lt_iff_lt_mul hw).mpr hk)
    rw [bne_eq_false_iff_eq] at this
    rw [mem, this, BitVec.getLsbD_allOnes, decide_eq_true (Nat.mod_lt k hw)]
  | some ix =>
    obtain ⟨o, ho, -⟩ := exists_firstIdx (bne_iff_ne.mp (Loop.firstIdx_some hix).2)
    unfold scan at h
    rw [hix, Option.bind_some, ho] at h
    cases h

/-- A clear bit makes the scan find one. -/
theorem exists_scan {n k : ℕ} (hk : k < n * w) (hc : mem v k = false) :
    ∃ ix o, scan v n = some (ix, o) := by
  cases h : scan v n with
  | none =>
    rw [scan_eq_none h k hk] at hc
    cases hc
  | some p => exact ⟨p.1, p.2, rfl⟩

/-! ## The set of the first bits -/

/-- The set bits below `n`. -/
def members (v : ℕ → BitVec w) (n : ℕ) : Finset ℕ := (Finset.range n).filter fun i => mem v i = true

@[simp] theorem mem_members {n : ℕ} : i ∈ members v n ↔ i < n ∧ mem v i = true := by
  simp [members]

theorem members_insert {n : ℕ} (hw : 0 < w) (hi : i < n) :
    members (insert v i) n = Insert.insert i (members v n) := by
  ext j
  rw [mem_members, Finset.mem_insert, mem_members, mem_insert hw]
  by_cases h : i = j
  · subst h
    simp [hi]
  · simp [h, Ne.symm h]

theorem members_erase {n : ℕ} (hw : 0 < w) :
    members (erase v i) n = (members v n).erase i := by
  ext j
  rw [mem_members, Finset.mem_erase, mem_members, mem_erase hw]
  by_cases h : i = j
  · subst h
    simp
  · simp [h, Ne.symm h]

end PackedBits
