import Mathlib.Data.List.Basic
import Mathlib.Data.Option.Basic
import Mathlib.Logic.Function.Basic

set_option autoImplicit false

/-!
# Tables with empty slots

An array of pointers, some of which are NULL, as a partial map from the numbers of its slots. A slot
beyond the end is as good as an empty one.

* `slot`: the map.
* **`slot_set`**, **`slot_append`**, **`slot_modify`**: the operations on the array are updates of it.
-/

namespace Slots

variable {α β : Type}

/-- What is in a slot. -/
def slot (l : List (Option α)) (i : ℕ) : Option α := l[i]?.join

variable {l : List (Option α)} {i : ℕ} {x : Option α} {a : α}

theorem slot_eq_some : slot l i = some a ↔ l[i]? = some (some a) := by
  unfold slot
  rw [Option.join_eq_some_iff]

theorem slot_of_le (h : l.length ≤ i) : slot l i = none := by
  unfold slot
  rw [List.getElem?_eq_none h]
  rfl

theorem slot_of_none (h : l[i]? = some none) : slot l i = none := by
  unfold slot
  rw [h]
  rfl

theorem lt_of_slot (h : slot l i = some a) : i < l.length :=
  (List.getElem?_eq_some_iff.mp (slot_eq_some.mp h)).1

theorem mem_iff_slot : some a ∈ l ↔ ∃ i, slot l i = some a :=
  List.mem_iff_getElem?.trans (exists_congr fun _ => slot_eq_some.symm)

theorem slot_set (h : i < l.length) (x : Option α) :
    slot (l.set i x) = Function.update (slot l) i x := by
  funext k
  unfold slot
  rw [List.getElem?_set]
  by_cases hk : k = i
  · rw [hk, if_pos rfl, if_pos h, Function.update_self]
    rfl
  · rw [if_neg (Ne.symm hk), Function.update_of_ne hk]

theorem slot_append (l : List (Option α)) (x : Option α) :
    slot (l ++ [x]) = Function.update (slot l) l.length x := by
  funext k
  rcases Nat.lt_trichotomy k l.length with hlt | rfl | hlt
  · rw [Function.update_of_ne (Nat.ne_of_lt hlt)]
    unfold slot
    rw [List.getElem?_append_left hlt]
  · rw [Function.update_self]
    unfold slot
    rw [List.getElem?_concat_length]
    rfl
  · rw [Function.update_of_ne (Nat.ne_of_gt hlt), slot_of_le (Nat.le_of_lt hlt),
      slot_of_le (by rw [List.length_append]; exact hlt)]

theorem slot_modify (f : α → α) :
    slot (l.modify i (Option.map f)) = Function.update (slot l) i ((slot l i).map f) := by
  funext k
  unfold slot
  rw [List.getElem?_modify]
  by_cases hk : k = i
  · simp only [hk, Function.update_self, if_true]
    cases l[i]? <;> rfl
  · rw [Function.update_of_ne hk]
    simp only [if_neg (Ne.symm hk)]
    cases l[k]? <;> rfl

/-- The first empty slot, or the one behind the last, is empty. -/
theorem slot_findIdx (l : List (Option α)) : slot l (l.findIdx Option.isNone) = none := by
  rcases Nat.lt_or_ge (l.findIdx Option.isNone) l.length with hlt | hge
  · refine slot_of_none (List.getElem?_eq_some_iff.mpr ⟨hlt, ?_⟩)
    exact Option.isNone_iff_eq_none.mp (List.findIdx_getElem (w := hlt))
  · exact slot_of_le hge

/-- **An empty slot that was filled is emptied again.** -/
theorem update_none_of_update {f : ℕ → Option α} (h : f i = none) (x : Option α) :
    Function.update (Function.update f i x) i none = f := by
  rw [Function.update_idem, ← h, Function.update_eq_self]

end Slots
