import Mathlib.Data.List.Nodup
import Mathlib.Data.List.Perm.Basic
import Mathlib.Logic.Function.Basic

set_option autoImplicit false

/-!
# Elements on lists

A family of lists, each element of which is on one list at most, and a map that says on which one.

* `Located`: the lists and the map agree.
* **`Located.insert`**, **`Located.remove`**: an element comes onto a list, or leaves it.
* `Counted`: the same where only the lengths of the lists are kept.
* **`Counted.insert`**, **`Counted.remove`**: one element more and one less.
-/

section Places

variable {ι α : Type}

/-- **Every element is on one list at most**, and `place` says on which one. -/
structure Located (L : ι → List α) (place : α → Option ι) : Prop where
  mem_iff : ∀ x i, x ∈ L i ↔ place x = some i
  nodup : ∀ i, (L i).Nodup

namespace Located

variable {L : ι → List α} {place : α → Option ι} {i j : ι} {x : α} {l l' : List α}

theorem empty : Located (fun _ => []) (fun _ => none : α → Option ι) :=
  ⟨fun _ _ => by simp, fun _ => List.nodup_nil⟩

/-- The element that is taken from a list was there. -/
theorem place_of_perm (h : Located L place) (hl : (L i).Perm (x :: l)) : place x = some i :=
  (h.mem_iff x i).mp (hl.mem_iff.mpr (List.mem_cons_self ..))

/-- An element that is on no list is on none of them. -/
theorem notMem (h : Located L place) (hx : place x = none) (k : ι) : x ∉ L k := by
  rw [h.mem_iff, hx]
  exact Option.some_ne_none k ∘ Eq.symm

variable [DecidableEq ι] [DecidableEq α]

/-- **An element comes onto a list.** -/
theorem insert (h : Located L place) (hx : place x = none) (hl : l.Perm (x :: L i)) :
    Located (Function.update L i l) (Function.update place x (some i)) where
  mem_iff y k := by
    by_cases hk : k = i
    · subst hk
      rw [Function.update_self, hl.mem_iff, List.mem_cons, h.mem_iff]
      by_cases hy : y = x
      · simp [hy]
      · simp [hy]
    · rw [Function.update_of_ne hk, h.mem_iff]
      by_cases hy : y = x
      · simp [hy, hx, Ne.symm hk]
      · rw [Function.update_of_ne hy]
  nodup k := by
    by_cases hk : k = i
    · subst hk
      rw [Function.update_self, hl.nodup_iff]
      exact List.nodup_cons.mpr ⟨h.notMem hx k, h.nodup k⟩
    · rw [Function.update_of_ne hk]
      exact h.nodup k

/-- **An element leaves its list.** -/
theorem remove (h : Located L place) (hl : (L i).Perm (x :: l)) :
    Located (Function.update L i l) (Function.update place x none) where
  mem_iff y k := by
    have hx : place x = some i := h.place_of_perm hl
    have hn : x ∉ l := (List.nodup_cons.mp (hl.nodup_iff.mp (h.nodup i))).1
    by_cases hy : y = x
    · subst hy
      rw [Function.update_self]
      by_cases hk : k = i
      · subst hk
        simp [hn]
      · rw [Function.update_of_ne hk, h.mem_iff, hx]
        simp [Ne.symm hk]
    · rw [Function.update_of_ne hy]
      by_cases hk : k = i
      · subst hk
        rw [Function.update_self, ← h.mem_iff, hl.mem_iff, List.mem_cons]
        simp [hy]
      · rw [Function.update_of_ne hk, h.mem_iff]
  nodup k := by
    by_cases hk : k = i
    · subst hk
      rw [Function.update_self]
      exact (List.nodup_cons.mp (hl.nodup_iff.mp (h.nodup k))).2
    · rw [Function.update_of_ne hk]
      exact h.nodup k

end Located

/-- **`count i` of the elements are at `i`.** -/
def Counted (count : ι → ℕ) (place : α → Option ι) : Prop :=
  ∃ L : ι → List α, Located L place ∧ ∀ i, count i = (L i).length

namespace Counted

variable {count : ι → ℕ} {place : α → Option ι} {i : ι} {x : α}

theorem empty : Counted (fun _ => 0) (fun _ => none : α → Option ι) :=
  ⟨fun _ => [], Located.empty, fun _ => rfl⟩

/-- The place of an element is counted. -/
theorem pos (h : Counted count place) (hx : place x = some i) : 0 < count i := by
  obtain ⟨L, hL, hc⟩ := h
  rw [hc]
  exact List.length_pos_of_mem ((hL.mem_iff x i).mpr hx)

variable [DecidableEq ι] [DecidableEq α]

/-- **One element more.** -/
theorem insert (h : Counted count place) (hx : place x = none) :
    Counted (Function.update count i (count i + 1)) (Function.update place x (some i)) := by
  obtain ⟨L, hL, hc⟩ := h
  refine ⟨_, hL.insert (i := i) hx (List.Perm.refl _), fun k => ?_⟩
  by_cases hk : k = i
  · subst hk
    simp [hc]
  · rw [Function.update_of_ne hk, Function.update_of_ne hk, hc]

/-- **One element less.** -/
theorem remove (h : Counted count place) (hx : place x = some i) :
    Counted (Function.update count i (count i - 1)) (Function.update place x none) := by
  obtain ⟨L, hL, hc⟩ := h
  have hmem : x ∈ L i := (hL.mem_iff x i).mpr hx
  refine ⟨_, hL.remove (List.perm_cons_erase hmem), fun k => ?_⟩
  by_cases hk : k = i
  · subst hk
    simp [hc, List.length_erase_of_mem hmem]
  · rw [Function.update_of_ne hk, Function.update_of_ne hk, hc]

end Counted

end Places
