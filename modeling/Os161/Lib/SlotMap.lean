import Mathlib.Data.Finset.Card
import Mathlib.Data.Finset.Range
import Mathlib.Logic.Function.Basic

set_option autoImplicit false

/-!
# Finite maps in slots

A finite map is kept in `n` slots, each of which holds a key with its value or is empty. A key is in
one slot at most, and the empty slots are used again.

* `SlotMap.lookup`: the map; `SlotMap.count`: how many keys have a value.
* **`Change.lookup_put`**, **`Change.lookup_clear`**: a slot gets a key that is new, or becomes empty.
-/

namespace SlotMap

variable {K V : Type} [DecidableEq K] [DecidableEq V]

/-- No key is in two slots. -/
def Distinct (slot : ℕ → Option (K × V)) (n : ℕ) : Prop :=
  ∀ i j k v w, i < n → j < n → slot i = some (k, v) → slot j = some (k, w) → i = j

/-- The value of a key. -/
def lookup (slot : ℕ → Option (K × V)) (n : ℕ) (k : K) : Option V :=
  (List.range n).findSome? fun i => (slot i).bind fun p => if p.1 = k then some p.2 else none

/-- The slots with a value. -/
def holders (slot : ℕ → Option (K × V)) (n : ℕ) (v : V) : Finset ℕ :=
  (Finset.range n).filter fun i => (slot i).map Prod.snd = some v

/-- How many slots have a value. -/
def count (slot : ℕ → Option (K × V)) (n : ℕ) (v : V) : ℕ := (holders slot n v).card

/-- Slot `i` is changed. It may be the slot behind the last one, which is then a slot too. -/
structure Change (slot slot' : ℕ → Option (K × V)) (n n' i : ℕ) : Prop where
  lt : i < n'
  bound : ∀ j, j ≠ i → (j < n' ↔ j < n)
  other : ∀ j, j ≠ i → j < n → slot' j = slot j

variable {slot slot' : ℕ → Option (K × V)} {n n' i : ℕ} {k : K} {v u : V}

omit [DecidableEq V] in
theorem lookup_eq_none : lookup slot n k = none ↔ ∀ i < n, ∀ v, slot i ≠ some (k, v) := by
  unfold lookup
  rw [List.findSome?_eq_none_iff]
  refine forall_congr' fun i => ?_
  rw [List.mem_range]
  refine forall_congr' fun _ => ?_
  cases hi : slot i with
  | none => simp
  | some p =>
    obtain ⟨k', v⟩ := p
    rw [Option.bind_some]
    constructor
    · rintro h w hw
      cases hw
      rw [if_pos rfl] at h
      cases h
    · intro h
      rw [if_neg]
      rintro rfl
      exact h v rfl

omit [DecidableEq V] in
theorem lookup_eq_some (h : Distinct slot n) :
    lookup slot n k = some v ↔ ∃ i < n, slot i = some (k, v) := by
  constructor
  · intro hl
    obtain ⟨i, hi, hv⟩ := List.exists_of_findSome?_eq_some hl
    refine ⟨i, List.mem_range.mp hi, ?_⟩
    obtain ⟨p, hp, hpv⟩ := Option.bind_eq_some_iff.mp hv
    split_ifs at hpv with hk
    rw [hp, ← hk, ← Option.some.inj hpv]
  · rintro ⟨i, hi, hs⟩
    cases hl : lookup slot n k with
    | none => exact absurd hs (lookup_eq_none.mp hl i hi v)
    | some w =>
      -- the slot that was found is the same
      obtain ⟨j, hj, hw⟩ := List.exists_of_findSome?_eq_some hl
      obtain ⟨p, hp, hpw⟩ := Option.bind_eq_some_iff.mp hw
      split_ifs at hpw with hk
      obtain ⟨k', w'⟩ := p
      obtain rfl : k' = k := hk
      obtain rfl := h i j _ _ _ hi (List.mem_range.mp hj) hs hp
      rw [hs] at hp
      cases hp
      exact hpw.symm

omit [DecidableEq K] in
theorem mem_holders {j : ℕ} : j ∈ holders slot n v ↔ j < n ∧ ∃ k, slot j = some (k, v) := by
  unfold holders
  rw [Finset.mem_filter, Finset.mem_range, Option.map_eq_some_iff]
  refine and_congr_right fun _ => ⟨?_, ?_⟩
  · rintro ⟨⟨k, w⟩, hs, rfl⟩
    exact ⟨k, hs⟩
  · rintro ⟨k, hs⟩
    exact ⟨(k, v), hs, rfl⟩

omit [DecidableEq K] in
theorem count_pos : 0 < count slot n v ↔ ∃ j < n, ∃ k, slot j = some (k, v) := by
  unfold count
  rw [Finset.card_pos]
  exact exists_congr fun j => mem_holders

omit [DecidableEq K] in
theorem count_le : count slot n v ≤ n :=
  (Finset.card_filter_le _ _).trans (le_of_eq (Finset.card_range n))

/-- **A key is in a slot if and only if the map has it.** -/
theorem count_pos_iff_lookup (h : Distinct slot n) : 0 < count slot n v ↔ ∃ k, lookup slot n k = some v := by
  rw [count_pos]
  constructor
  · rintro ⟨j, hj, k, hs⟩
    exact ⟨k, (lookup_eq_some h).mpr ⟨j, hj, hs⟩⟩
  · rintro ⟨k, hk⟩
    obtain ⟨j, hj, hs⟩ := (lookup_eq_some h).mp hk
    exact ⟨j, hj, k, hs⟩

namespace Change

omit [DecidableEq K] [DecidableEq V] in
/-- There is one slot more if the slot is the one behind the last. -/
theorem size (h : Change slot slot' n n' i) (hi : i ≤ n) : n' = if i < n then n else n + 1 := by
  have hlt := h.lt
  by_contra hne
  split_ifs at hne with hin
  · rcases Nat.lt_or_gt_of_ne hne with hless | hmore
    · exact absurd ((h.bound n' (by omega)).mpr hless) (Nat.lt_irrefl _)
    · exact absurd ((h.bound n (by omega)).mp hmore) (Nat.lt_irrefl _)
  · have := (h.bound (n + 1) (by omega)).mp (by omega)
    omega

omit [DecidableEq K] in
theorem holders_other (h : Change slot slot' n n' i) {j : ℕ} (hj : j ≠ i) :
    j ∈ holders slot' n' v ↔ j ∈ holders slot n v := by
  rw [mem_holders, mem_holders, h.bound j hj]
  exact and_congr_right fun hlt => by rw [h.other j hj hlt]

section Put

variable (h : Change slot slot' n n' i) (hd : Distinct slot n) (hempty : i < n → slot i = none)
  (hself : slot' i = some (k, v)) (hnew : lookup slot n k = none)
include h hd hempty hself hnew

omit [DecidableEq V] hempty in
/-- **A slot gets a new key**, and no key is in two slots. -/
theorem distinct_put : Distinct slot' n' := by
  have hold : ∀ j, j ≠ i → j < n' → ∀ w, slot' j ≠ some (k, w) := fun j hj hlt w hs => by
    have hjn := (h.bound j hj).mp hlt
    rw [h.other j hj hjn] at hs
    exact lookup_eq_none.mp hnew j hjn w hs
  intro a b k' x y ha hb hx hy
  by_cases hai : a = i <;> by_cases hbi : b = i
  · rw [hai, hbi]
  · rw [hai, hself] at hx
    cases hx
    exact absurd hy (hold b hbi hb y)
  · rw [hbi, hself] at hy
    cases hy
    exact absurd hx (hold a hai ha x)
  · have han := (h.bound a hai).mp ha
    have hbn := (h.bound b hbi).mp hb
    rw [h.other a hai han] at hx
    rw [h.other b hbi hbn] at hy
    exact hd a b k' x y han hbn hx hy

omit [DecidableEq V] in
/-- **A slot gets a new key**: the map has it, too. -/
theorem lookup_put : lookup slot' n' = Function.update (lookup slot n) k (some v) := by
  have hdistinct := h.distinct_put hd hself hnew
  funext k'
  by_cases hk : k' = k
  · rw [hk, Function.update_self]
    exact (lookup_eq_some hdistinct).mpr ⟨i, h.lt, hself⟩
  · rw [Function.update_of_ne hk]
    refine Option.ext fun w => ?_
    rw [lookup_eq_some hdistinct, lookup_eq_some hd]
    refine exists_congr fun j => ?_
    by_cases hj : j = i
    · subst hj
      refine iff_of_false (fun hs => ?_) fun hs => ?_
      · rw [hself] at hs
        exact hk (Prod.mk.inj (Option.some.inj hs.2)).1.symm
      · rw [hempty hs.1] at hs
        cases hs.2
    · rw [h.bound j hj]
      exact and_congr_right fun hlt => by rw [h.other j hj hlt]

omit [DecidableEq K] hd hnew in
/-- **A slot gets a new key**: its value has one more. -/
theorem count_put (u : V) : count slot' n' u = count slot n u + if u = v then 1 else 0 := by
  have hni : i ∉ holders slot n u := fun hm => by
    obtain ⟨hlt, k', hs⟩ := mem_holders.mp hm
    rw [hempty hlt] at hs
    cases hs
  unfold count
  split_ifs with hu
  · rw [← Finset.card_insert_of_notMem hni]
    congr 1
    ext j
    rw [Finset.mem_insert]
    by_cases hj : j = i
    · rw [hj, hu]
      exact iff_of_true (mem_holders.mpr ⟨h.lt, k, hself⟩) (.inl rfl)
    · rw [h.holders_other hj, or_iff_right hj]
  · rw [Nat.add_zero]
    congr 1
    ext j
    by_cases hj : j = i
    · rw [hj]
      refine iff_of_false (fun hm => ?_) hni
      obtain ⟨-, k', hs⟩ := mem_holders.mp hm
      rw [hself] at hs
      exact hu (Prod.mk.inj (Option.some.inj hs)).2.symm
    · exact h.holders_other hj

end Put

section Clear

variable (h : Change slot slot' n n' i) (hd : Distinct slot n) (hi : i < n)
  (hold : slot i = some (k, v)) (hself : slot' i = none)
include h hd hi hold hself

omit [DecidableEq K] [DecidableEq V] hi hold in
/-- **A slot becomes empty**, and no key is in two slots. -/
theorem distinct_clear : Distinct slot' n' := by
  have hsame : ∀ j p, slot' j = some p → j < n' → j < n ∧ slot j = some p := fun j p hs hlt => by
    have hj : j ≠ i := by
      rintro rfl
      rw [hself] at hs
      cases hs
    have hjn := (h.bound j hj).mp hlt
    exact ⟨hjn, by rw [← h.other j hj hjn, hs]⟩
  intro a b k' x y ha hb hx hy
  obtain ⟨han, hsa⟩ := hsame a _ hx ha
  obtain ⟨hbn, hsb⟩ := hsame b _ hy hb
  exact hd a b k' x y han hbn hsa hsb

omit [DecidableEq V] in
/-- **A slot becomes empty**: the map does not have its key. -/
theorem lookup_clear : lookup slot' n' = Function.update (lookup slot n) k none := by
  have hdistinct := h.distinct_clear hd hself
  funext k'
  by_cases hk : k' = k
  · rw [hk, Function.update_self, lookup_eq_none]
    intro j hj w hs
    by_cases hji : j = i
    · rw [hji, hself] at hs
      cases hs
    · have hjn := (h.bound j hji).mp hj
      rw [h.other j hji hjn] at hs
      exact hji (hd j i k w v hjn hi hs hold)
  · rw [Function.update_of_ne hk]
    refine Option.ext fun w => ?_
    rw [lookup_eq_some hdistinct, lookup_eq_some hd]
    refine exists_congr fun j => ?_
    by_cases hj : j = i
    · subst hj
      refine iff_of_false (fun hs => ?_) fun hs => ?_
      · rw [hself] at hs
        cases hs.2
      · rw [hold] at hs
        exact hk (Prod.mk.inj (Option.some.inj hs.2)).1.symm
    · rw [h.bound j hj]
      exact and_congr_right fun hlt => by rw [h.other j hj hlt]

omit [DecidableEq K] hd in
/-- **A slot becomes empty**: its value has one less. -/
theorem count_clear (u : V) : count slot n u = count slot' n' u + if u = v then 1 else 0 := by
  have hni : i ∉ holders slot' n' u := fun hm => by
    obtain ⟨-, k', hs⟩ := mem_holders.mp hm
    rw [hself] at hs
    cases hs
  unfold count
  split_ifs with hu
  · rw [← Finset.card_insert_of_notMem hni]
    congr 1
    ext j
    rw [Finset.mem_insert]
    by_cases hj : j = i
    · rw [hj, hu]
      exact iff_of_true (mem_holders.mpr ⟨hi, k, hold⟩) (.inl rfl)
    · rw [h.holders_other hj, or_iff_right hj]
  · rw [Nat.add_zero]
    congr 1
    ext j
    by_cases hj : j = i
    · rw [hj]
      refine iff_of_false (fun hm => ?_) hni
      obtain ⟨-, k', hs⟩ := mem_holders.mp hm
      rw [hold] at hs
      exact hu (Prod.mk.inj (Option.some.inj hs)).2.symm
    · exact (h.holders_other hj).symm

end Clear

end Change

end SlotMap
