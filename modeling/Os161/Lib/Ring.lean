import Mathlib.Data.Int.ModEq
import Mathlib.Data.List.Basic
import Mathlib.Logic.Function.Basic
import Mathlib.Tactic.Common

set_option autoImplicit false

/-!
# Ring buffers

A sequence goes through the slots of a ring: entry `i` is in the slot `i % size` from when it is
written until it is taken out.

* `Holds size slot l lo`: the entries of `l` from number `lo` on are in their slots.
* `Holds.push`: one more entry where a slot is free; `distance`: the number of entries between two
  positions of the ring.
* **`Holds.contents`**: the slots between the positions are the rest of the sequence.
-/

namespace Ring

variable {α : Type} {size lo hi : ℕ} {slot : ℕ → α} {l : List α}

/-- The entries from number `lo` on are in their slots. -/
def Holds (size : ℕ) (slot : ℕ → α) (l : List α) (lo : ℕ) : Prop :=
  ∀ i, lo ≤ i → i < l.length → l[i]? = some (slot (i % size))

/-- The slots from the position `tail` up to the position `head`. -/
def contents (size : ℕ) (slot : ℕ → α) (head tail : ℕ) : List α :=
  (List.range ((head + size - tail) % size)).map fun i => slot ((tail + i) % size)

theorem Holds.mono {lo' : ℕ} (h : Holds size slot l lo) (hle : lo ≤ lo') : Holds size slot l lo' :=
  fun i hi => h i (Nat.le_trans hle hi)

/-- **One more entry**, where fewer than `size` are in the ring. -/
theorem Holds.push (h : Holds size slot l lo) (hfree : l.length < lo + size) (a : α) :
    Holds size (Function.update slot (l.length % size) a) (l ++ [a]) lo := by
  intro i hlo hi
  rw [List.length_append, List.length_singleton] at hi
  rcases Nat.lt_or_eq_of_le (Nat.le_of_lt_succ hi) with hlt | rfl
  · have hne : i % size ≠ l.length % size := by
      intro e
      have hd : size ∣ l.length - i := (Nat.modEq_iff_dvd' hlt.le).mp e
      exact absurd (Nat.le_of_dvd (by omega) hd) (by omega)
    rw [List.getElem?_append_left hlt, Function.update_of_ne hne]
    exact h i hlo hlt
  · rw [List.getElem?_concat_length, Function.update_self]

/-- **The number of entries** between two positions. -/
theorem distance (hle : lo ≤ hi) (hlt : hi < lo + size) :
    (hi % size + size - lo % size) % size = hi - lo := by
  have hlo := Nat.mod_lt lo (show 0 < size by omega)
  obtain ⟨d, rfl⟩ := Nat.exists_eq_add_of_le hle
  have hd : d < size := by omega
  rw [Nat.add_mod lo d, Nat.mod_eq_of_lt hd, Nat.add_sub_cancel_left]
  by_cases hwrap : lo % size + d < size
  · rw [Nat.mod_eq_of_lt hwrap, show lo % size + d + size - lo % size = d + size by omega,
      Nat.add_mod_right, Nat.mod_eq_of_lt hd]
  · have hmod : (lo % size + d) % size = lo % size + d - size := by
      rw [Nat.mod_eq_sub_mod (by omega), Nat.mod_eq_of_lt (by omega)]
    rw [hmod, show lo % size + d - size + size - lo % size = d by omega, Nat.mod_eq_of_lt hd]

/-- The ring is full when the next position for an entry is that of the oldest one. -/
theorem full_iff (hle : lo ≤ hi) (hlt : hi < lo + size) :
    (hi % size + 1) % size = lo % size ↔ hi + 1 = lo + size := by
  rw [Nat.mod_add_mod]
  constructor
  · intro e
    have hd : size ∣ hi + 1 - lo := (Nat.modEq_iff_dvd' (by omega)).mp e.symm
    have := Nat.le_of_dvd (by omega) hd
    omega
  · intro e
    rw [e, Nat.add_mod_right]

/-- **The slots between the positions** are the rest of the sequence. -/
theorem Holds.contents (h : Holds size slot l lo) (hle : lo ≤ l.length)
    (hlt : l.length < lo + size) :
    contents size slot (l.length % size) (lo % size) = l.drop lo := by
  unfold Ring.contents
  rw [distance hle hlt]
  refine List.ext_getElem? fun i => ?_
  rw [List.getElem?_map, List.getElem?_drop]
  by_cases hi : i < l.length - lo
  · rw [List.getElem?_range hi, Option.map_some, Nat.mod_add_mod, h (lo + i) (by omega) (by omega)]
  · rw [List.getElem?_eq_none (by rw [List.length_range]; omega),
      List.getElem?_eq_none (by omega)]
    rfl

end Ring
