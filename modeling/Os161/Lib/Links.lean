import Mathlib.Data.List.Chain
import Mathlib.Data.List.Nodup
import Mathlib.Logic.Function.Basic

set_option autoImplicit false

/-!
# Doubly linked chains in a memory

Nodes with a link in each direction: `next` and `prev` read the links of a node, `none` is a null
pointer.

* `Linked next prev l`: along `l` the links lead forth and back between neighbours.
* `Linked.congr`: writes elsewhere.
* **`Linked.insert`**, **`Linked.remove`**: a node between two neighbours, and one taken out.
* `Linked.next_eq`, `Linked.prev_eq`: the links of a node inside.
-/

namespace Links

variable {α : Type}

/-- `b` follows `a` in both directions. -/
def Adjacent (next prev : α → Option α) (a b : α) : Prop := next a = some b ∧ prev b = some a

/-- Neighbours in the list are linked to each other. -/
def Linked (next prev : α → Option α) (l : List α) : Prop := l.IsChain (Adjacent next prev)

section Split

variable {next prev next' prev' : α → Option α} {l l₁ l₂ : List α} {a b x : α}

/-- **Frame**: the links out of a chain do not matter, and neither do those of its ends. -/
theorem Linked.congr (h : Linked next prev l) (hn : ∀ a ∈ l.dropLast, next' a = next a)
    (hp : ∀ a ∈ l.tail, prev' a = prev a) : Linked next' prev' l := by
  induction l with
  | nil => exact List.isChain_nil
  | cons a l ih =>
    cases l with
    | nil => exact List.isChain_singleton a
    | cons b l =>
      obtain ⟨⟨hab, hba⟩, hl⟩ := List.isChain_cons_cons.mp h
      refine List.isChain_cons_cons.mpr ⟨⟨?_, ?_⟩, ih hl ?_ ?_⟩
      · rw [hn a (by simp), hab]
      · rw [hp b (by simp), hba]
      · intro c hc
        exact hn c (by rw [List.dropLast_cons_of_ne_nil (List.cons_ne_nil b l)]; simp [hc])
      · intro c hc
        exact hp c (by simp at hc ⊢; exact .inr hc)

/-- A chain is cut between two neighbours. -/
theorem linked_append_cons_cons :
    Linked next prev (l₁ ++ a :: b :: l₂) ↔
      Linked next prev (l₁ ++ [a]) ∧ Adjacent next prev a b ∧ Linked next prev (b :: l₂) :=
  List.isChain_append_cons_cons

theorem linked_cons_cons :
    Linked next prev (a :: b :: l) ↔ Adjacent next prev a b ∧ Linked next prev (b :: l) :=
  List.isChain_cons_cons

/-- The link forth of a node that has a neighbour. -/
theorem Linked.next_eq (l₁ l₂ : List α) (h : Linked next prev (l₁ ++ a :: b :: l₂)) :
    next a = some b :=
  (linked_append_cons_cons.mp h).2.1.1

/-- The link back of a node that has a neighbour. -/
theorem Linked.prev_eq (l₁ l₂ : List α) (h : Linked next prev (l₁ ++ a :: b :: l₂)) :
    prev b = some a :=
  (linked_append_cons_cons.mp h).2.1.2

end Split

section Change

variable [DecidableEq α] {next prev : α → Option α} {l₁ l₂ : List α} {a b x : α}

/-- **A new node between two neighbours.** -/
theorem Linked.insert (h : Linked next prev (l₁ ++ a :: b :: l₂))
    (hnd : (l₁ ++ a :: b :: l₂).Nodup) (hx : x ∉ l₁ ++ a :: b :: l₂) :
    Linked (Function.update (Function.update next x (some b)) a (some x))
      (Function.update (Function.update prev x (some a)) b (some x)) (l₁ ++ a :: x :: b :: l₂) := by
  obtain ⟨hleft, -, hright⟩ := linked_append_cons_cons.mp h
  rw [List.nodup_append, List.nodup_cons, List.nodup_cons] at hnd
  obtain ⟨-, ⟨ha, hb, -⟩, hdis⟩ := hnd
  simp only [List.mem_append, List.mem_cons, not_or] at hx ha
  obtain ⟨hx₁, hxa, hxb, hx₂⟩ := hx
  refine linked_append_cons_cons.mpr ⟨hleft.congr ?_ ?_, ⟨?_, ?_⟩,
    linked_cons_cons.mpr ⟨⟨?_, ?_⟩, hright.congr ?_ ?_⟩⟩
  · intro c hc
    rw [List.dropLast_concat] at hc
    have hca : c ≠ a := fun e => hdis c hc a List.mem_cons_self e
    have hcx : c ≠ x := fun e => hx₁ (e ▸ hc)
    rw [Function.update_of_ne hca, Function.update_of_ne hcx]
  · intro c hc
    have hmem : c ∈ l₁ ++ [a] := List.mem_of_mem_tail hc
    rw [List.mem_append, List.mem_singleton] at hmem
    have hcb : c ≠ b := by
      rcases hmem with hmem | rfl
      · exact fun e => hdis c hmem b (by simp) e
      · exact ha.1
    have hcx : c ≠ x := by
      rcases hmem with hmem | rfl
      · exact fun e => hx₁ (e ▸ hmem)
      · exact Ne.symm hxa
    rw [Function.update_of_ne hcb, Function.update_of_ne hcx]
  · rw [Function.update_self]
  · rw [Function.update_of_ne hxb, Function.update_self]
  · rw [Function.update_of_ne hxa, Function.update_self]
  · rw [Function.update_self]
  · intro c hc
    have hmem : c ∈ b :: l₂ := List.dropLast_subset _ hc
    have hca : c ≠ a := by
      rintro rfl
      rcases List.mem_cons.mp hmem with e | hmem
      · exact ha.1 e
      · exact ha.2 hmem
    have hcx : c ≠ x := by
      rintro rfl
      rcases List.mem_cons.mp hmem with e | hmem
      · exact hxb e
      · exact hx₂ hmem
    rw [Function.update_of_ne hca, Function.update_of_ne hcx]
  · intro c hc
    have hcb : c ≠ b := fun e => hb (e ▸ hc)
    have hcx : c ≠ x := fun e => hx₂ (e ▸ hc)
    rw [Function.update_of_ne hcb, Function.update_of_ne hcx]

/-- **A node is taken out** from between its neighbours. -/
theorem Linked.remove (h : Linked next prev (l₁ ++ a :: x :: b :: l₂))
    (hnd : (l₁ ++ a :: x :: b :: l₂).Nodup) :
    Linked (Function.update (Function.update next a (some b)) x none)
      (Function.update (Function.update prev b (some a)) x none) (l₁ ++ a :: b :: l₂) := by
  obtain ⟨hleft, -, hright⟩ := linked_append_cons_cons.mp h
  obtain ⟨-, hright⟩ := linked_cons_cons.mp hright
  rw [List.nodup_append, List.nodup_cons, List.nodup_cons, List.nodup_cons] at hnd
  obtain ⟨-, ⟨ha, hx, hb, -⟩, hdis⟩ := hnd
  simp only [List.mem_cons, not_or] at ha hx
  refine linked_append_cons_cons.mpr ⟨hleft.congr ?_ ?_, ⟨?_, ?_⟩, hright.congr ?_ ?_⟩
  · intro c hc
    rw [List.dropLast_concat] at hc
    have hca : c ≠ a := fun e => hdis c hc a List.mem_cons_self e
    have hcx : c ≠ x := fun e => hdis c hc x (by simp) e
    rw [Function.update_of_ne hcx, Function.update_of_ne hca]
  · intro c hc
    have hmem : c ∈ l₁ ++ [a] := List.mem_of_mem_tail hc
    rw [List.mem_append, List.mem_singleton] at hmem
    have hcx : c ≠ x := by
      rcases hmem with hmem | rfl
      · exact fun e => hdis c hmem x (by simp) e
      · exact ha.1
    have hcb : c ≠ b := by
      rcases hmem with hmem | rfl
      · exact fun e => hdis c hmem b (by simp) e
      · exact ha.2.1
    rw [Function.update_of_ne hcx, Function.update_of_ne hcb]
  · rw [Function.update_of_ne ha.1, Function.update_self]
  · rw [Function.update_of_ne (Ne.symm hx.1), Function.update_self]
  · intro c hc
    have hmem : c ∈ b :: l₂ := List.dropLast_subset _ hc
    have hcx : c ≠ x := by
      rintro rfl
      rcases List.mem_cons.mp hmem with e | hmem
      · exact hx.1 e
      · exact hx.2 hmem
    have hca : c ≠ a := by
      rintro rfl
      rcases List.mem_cons.mp hmem with e | hmem
      · exact ha.2.1 e
      · exact ha.2.2 hmem
    rw [Function.update_of_ne hcx, Function.update_of_ne hca]
  · intro c hc
    have hcx : c ≠ x := fun e => hx.2 (e ▸ hc)
    have hcb : c ≠ b := fun e => hb (e ▸ hc)
    rw [Function.update_of_ne hcx, Function.update_of_ne hcb]

end Change

end Links
