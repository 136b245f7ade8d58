import Mathlib.Data.List.Nodup
import Mathlib.Logic.Function.Basic

set_option autoImplicit false

/-!
# Linked lists in a memory

A singly linked list whose links are stored in the cells themselves: `next` reads the link of a
cell, `null` ends the list.

* `Chain next null p l`: from `p` on the links lead through the cells `l`.
* `Chain.congr`, `Chain.push`: writes elsewhere, and a new cell in front.
* `Chain.link`: the last cell is linked to another list.
* **`Chain.nodup`**: a list that ends runs through no cell twice.
-/

variable {α : Type}

/-- From the pointer `p` on the links lead through the cells `l` and end. -/
def Chain (next : α → α) (null : α) : α → List α → Prop
  | p, [] => p = null
  | p, a :: l => p = a ∧ a ≠ null ∧ Chain next null (next a) l

namespace Chain

variable {next next' : α → α} {null p a : α} {l l' : List α}

@[simp] theorem nil_iff : Chain next null p [] ↔ p = null := Iff.rfl

@[simp] theorem cons_iff :
    Chain next null p (a :: l) ↔ p = a ∧ a ≠ null ∧ Chain next null (next a) l := Iff.rfl

/-- **Frame**: a write that leaves the links of the cells alone. -/
theorem congr (h : Chain next null p l) (hn : ∀ a ∈ l, next' a = next a) :
    Chain next' null p l := by
  induction l generalizing p with
  | nil => exact h
  | cons a l ih =>
    obtain ⟨hp, ha, hl⟩ := h
    refine ⟨hp, ha, ?_⟩
    rw [hn a List.mem_cons_self]
    exact ih hl fun b hb => hn b (List.mem_cons_of_mem a hb)

/-- A cell in front. -/
theorem push [DecidableEq α] (h : Chain next null p l) (ha : a ≠ null) (hl : a ∉ l) :
    Chain (Function.update next a p) null a (a :: l) := by
  refine ⟨rfl, ha, ?_⟩
  rw [Function.update_self]
  exact h.congr fun b hb => Function.update_of_ne (fun e : b = a => hl (e ▸ hb)) _ _

/-- The list is empty exactly when its pointer is null. -/
theorem eq_nil_iff (h : Chain next null p l) : l = [] ↔ p = null := by
  cases l with
  | nil => simpa using h
  | cons a l =>
    obtain ⟨rfl, ha, -⟩ := h
    simp [ha]

/-- The memory determines the list. -/
theorem unique (h : Chain next null p l) (h' : Chain next null p l') : l = l' := by
  induction l generalizing p l' with
  | nil => exact (h'.eq_nil_iff.mpr h).symm
  | cons a l ih =>
    obtain ⟨rfl, ha, hl⟩ := h
    cases l' with
    | nil => exact absurd h' ha
    | cons b l' =>
      obtain ⟨rfl, -, hl'⟩ := h'
      rw [ih hl hl']

/-- The list from one of its cells on. -/
theorem suffix {l₁ l₂ : List α} (h : Chain next null p (l₁ ++ a :: l₂)) :
    Chain next null a (a :: l₂) := by
  induction l₁ generalizing p with
  | nil => exact h.1 ▸ h
  | cons b l₁ ih => exact ih h.2.2

/-- **A list that ends is not cyclic.** -/
theorem nodup (h : Chain next null p l) : l.Nodup := by
  induction l generalizing p with
  | nil => exact List.nodup_nil
  | cons a l ih =>
    obtain ⟨rfl, -, hl⟩ := id h
    refine List.nodup_cons.mpr ⟨fun hm => ?_, ih hl⟩
    obtain ⟨l₁, l₂, rfl⟩ := List.append_of_mem hm
    have hagain : Chain next null p (p :: l₂) := suffix hl
    have := congrArg List.length (unique h hagain)
    simp only [List.length_cons, List.length_append] at this
    omega

/-- **The last cell is linked to another list.** -/
theorem link [DecidableEq α] {q t : α} (h : Chain next null p (l ++ [t]))
    (h' : Chain next null q l') (ht : t ∉ l') :
    Chain (Function.update next t q) null p (l ++ t :: l') := by
  induction l generalizing p with
  | nil =>
    refine ⟨h.1, h.2.1, ?_⟩
    rw [Function.update_self]
    exact h'.congr fun b hb => Function.update_of_ne (fun e : b = t => ht (e ▸ hb)) _ _
  | cons a l ih =>
    have hat : a ≠ t := by
      rintro rfl
      exact (List.nodup_cons.mp h.nodup).1 (List.mem_append_right l List.mem_cons_self)
    refine ⟨h.1, h.2.1, ?_⟩
    rw [Function.update_of_ne hat]
    exact ih h.2.2

end Chain
