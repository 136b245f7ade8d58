import Mathlib.Tactic.Common

set_option autoImplicit false

/-!
# Exact ownership

Slots own blocks, and blocks are marked: every marked block has exactly one owner.

* `Exact`: the invariant.
* **`Exact.attach`**, **`Exact.release`**: a free block gets an owner, and a set of blocks becomes free
  together with its owners' claims.
-/

section Owner

variable {S B : Type}

/-- **The marked blocks are those that have an owner, and they have one each.** -/
structure Exact (owns : S → B → Prop) (mark : B → Prop) : Prop where
  marked : ∀ s b, owns s b → mark b
  owned : ∀ b, mark b → ∃ s, owns s b
  unique : ∀ s t b, owns s b → owns t b → s = t

namespace Exact

variable {owns owns' : S → B → Prop} {mark mark' : B → Prop}

theorem congr (h : Exact owns mark) (ho : ∀ s b, owns' s b ↔ owns s b)
    (hm : ∀ b, mark' b ↔ mark b) : Exact owns' mark' where
  marked s b hs := (hm b).mpr (h.marked s b ((ho s b).mp hs))
  owned b hb := (h.owned b ((hm b).mp hb)).imp fun s hs => (ho s b).mpr hs
  unique s t b hs ht := h.unique s t b ((ho s b).mp hs) ((ho t b).mp ht)

/-- A free block gets an owner. -/
theorem attach (h : Exact owns mark) (a : S) {d : B} (hfree : ¬ mark d)
    (ho : ∀ s b, owns' s b ↔ owns s b ∨ s = a ∧ b = d) (hm : ∀ b, mark' b ↔ mark b ∨ b = d) :
    Exact owns' mark' where
  marked s b hs := by
    rw [hm]
    exact ((ho s b).mp hs).imp (h.marked s b) fun h => h.2
  owned b hb := by
    rcases (hm b).mp hb with hb | rfl
    · obtain ⟨s, hs⟩ := h.owned b hb
      exact ⟨s, (ho s b).mpr (.inl hs)⟩
    · exact ⟨a, (ho a b).mpr (.inr ⟨rfl, rfl⟩)⟩
  unique s t b hs ht := by
    rcases (ho s b).mp hs with hs | ⟨rfl, rfl⟩ <;> rcases (ho t b).mp ht with ht | ⟨rfl, hb⟩
    · exact h.unique s t b hs ht
    · exact absurd (h.marked s b hs) (hb ▸ hfree)
    · exact absurd (h.marked t b ht) hfree
    · rfl

/-- The blocks of `D` become free. -/
theorem release (h : Exact owns mark) (D : B → Prop) (ho : ∀ s b, owns' s b ↔ owns s b ∧ ¬ D b)
    (hm : ∀ b, mark' b ↔ mark b ∧ ¬ D b) : Exact owns' mark' where
  marked s b hs := (hm b).mpr (((ho s b).mp hs).imp_left (h.marked s b))
  owned b hb := by
    obtain ⟨hb, hD⟩ := (hm b).mp hb
    obtain ⟨s, hs⟩ := h.owned b hb
    exact ⟨s, (ho s b).mpr ⟨hs, hD⟩⟩
  unique s t b hs ht := h.unique s t b ((ho s b).mp hs).1 ((ho t b).mp ht).1

/-- There is exactly one owner. -/
theorem existsUnique (h : Exact owns mark) {b : B} (hb : mark b) : ∃! s, owns s b := by
  obtain ⟨s, hs⟩ := h.owned b hb
  exact ⟨s, hs, fun t ht => h.unique t s b ht hs⟩

end Exact

end Owner
