import Mathlib.Data.Nat.Basic
import Mathlib.Logic.Function.Basic
import Mathlib.Tactic.Common

set_option autoImplicit false

/-!
# Bounded loops

The three shapes of `for` loop over an array that is modelled as a function on indices.

* `forRange`: `for (i = lo; i < lo + n; i++) body`, with the rule for loops that rewrite one cell
  per iteration (`forRange_update`, `forRange_write`) and the invariant rule (`forRange_inv`).
* `firstIdx`: the search loop that breaks at the first index satisfying a test.
* `argMin`: the scan for the index with the smallest key below a bound.
-/

namespace Loop

variable {σ α : Type}

/-- `for (i = lo; i < lo + n; i++) s = body i s`. -/
def forRange (lo : ℕ) : ℕ → (ℕ → σ → σ) → σ → σ
  | 0, _, s => s
  | n + 1, body, s => forRange (lo + 1) n body (body lo s)

/-- **The invariant rule.** -/
theorem forRange_inv (body : ℕ → σ → σ) (P : ℕ → σ → Prop) :
    ∀ (n lo : ℕ) (s : σ), P lo s → (∀ i s, lo ≤ i → i < lo + n → P i s → P (i + 1) (body i s)) →
      P (lo + n) (forRange lo n body s)
  | 0, _, _, h, _ => h
  | n + 1, lo, s, h, hstep => by
    have := forRange_inv body P n (lo + 1) (body lo s) (hstep lo s (le_refl _) (by omega) h)
      (fun i s h₁ h₂ => hstep i s (by omega) (by omega))
    rwa [show lo + 1 + n = lo + (n + 1) by omega] at this

/-- **A loop that rewrites cell `i` in iteration `i`** is the pointwise rewriting of the range. -/
theorem forRange_update (f : ℕ → α → α) (n lo : ℕ) (g : ℕ → α) (j : ℕ) :
    forRange lo n (fun i g => Function.update g i (f i (g i))) g j =
      if lo ≤ j ∧ j < lo + n then f j (g j) else g j := by
  induction n generalizing lo g with
  | zero => rw [forRange, if_neg (by omega)]
  | succ n ih =>
    rw [forRange, ih]
    by_cases hj : j = lo
    · subst hj
      rw [if_neg (by omega), Function.update_self, if_pos (by omega)]
    · rw [Function.update_of_ne hj]
      exact if_congr (by omega) rfl rfl

section Write

variable {κ : Type} [DecidableEq κ] {f : ℕ → κ} {v : ℕ → α} {n lo : ℕ}

/-- **A loop that writes `v i` at the place `f i`** leaves the other places alone. -/
theorem forRange_write_of_ne {a : κ} (h : ∀ i, lo ≤ i → i < lo + n → a ≠ f i) (g : κ → α) :
    forRange lo n (fun i g => Function.update g (f i) (v i)) g a = g a :=
  forRange_inv (fun i g => Function.update g (f i) (v i)) (fun _ g' => g' a = g a) n lo g rfl
    fun i _ hlo hhi hg' => (Function.update_of_ne (h i hlo hhi) _ _).trans hg'

/-- The places it writes, when they differ. -/
theorem forRange_write (hf : Function.Injective f) {i : ℕ} (hlo : lo ≤ i) (hhi : i < lo + n)
    (g : κ → α) : forRange lo n (fun i g => Function.update g (f i) (v i)) g (f i) = v i := by
  refine forRange_inv (fun i g => Function.update g (f i) (v i))
    (fun m g' => ∀ i, lo ≤ i → i < m → g' (f i) = v i) n lo g (fun i h₁ h₂ => by omega)
    (fun m g' _ _ hg' i h₁ h₂ => ?_) i hlo hhi
  by_cases he : i = m
  · subst he
    exact Function.update_self _ _ _
  · refine (Function.update_of_ne (fun e => he (hf e)) _ _).trans (hg' i h₁ (by omega))

end Write

/-- `for (i = lo; i < lo + n; i++) if (p i) break;` -/
def firstIdx (p : ℕ → Bool) (lo : ℕ) : ℕ → Option ℕ
  | 0 => none
  | n + 1 => if p lo then some lo else firstIdx p (lo + 1) n

theorem firstIdx_eq_some {p : ℕ → Bool} {n lo i : ℕ} :
    firstIdx p lo n = some i ↔
      lo ≤ i ∧ i < lo + n ∧ p i = true ∧ ∀ j, lo ≤ j → j < i → p j = false := by
  induction n generalizing lo with
  | zero => simp only [firstIdx]; constructor
            · intro h; cases h
            · rintro ⟨h₁, h₂, -⟩; omega
  | succ n ih =>
    rw [firstIdx]
    by_cases hp : p lo = true
    · rw [if_pos hp, Option.some.injEq]
      constructor
      · rintro rfl
        exact ⟨le_refl _, by omega, hp, fun j h₁ h₂ => by omega⟩
      · rintro ⟨h₁, -, -, h₄⟩
        by_contra hne
        have := h₄ lo (le_refl _) (by omega)
        rw [hp] at this
        exact Bool.noConfusion this
    · rw [if_neg hp, ih]
      constructor
      · rintro ⟨h₁, h₂, h₃, h₄⟩
        refine ⟨by omega, by omega, h₃, fun j hj hji => ?_⟩
        by_cases e : j = lo
        · subst e; simpa using hp
        · exact h₄ j (by omega) hji
      · rintro ⟨h₁, h₂, h₃, h₄⟩
        have hne : i ≠ lo := fun e => hp (e ▸ h₃)
        exact ⟨by omega, by omega, h₃, fun j hj hji => h₄ j (by omega) hji⟩

theorem firstIdx_eq_none {p : ℕ → Bool} {n lo : ℕ} :
    firstIdx p lo n = none ↔ ∀ i, lo ≤ i → i < lo + n → p i = false := by
  induction n generalizing lo with
  | zero => simp only [firstIdx, true_iff]; intro i h₁ h₂; omega
  | succ n ih =>
    rw [firstIdx]
    by_cases hp : p lo = true
    · rw [if_pos hp]
      constructor
      · intro h; cases h
      · intro h
        rw [h lo (le_refl _) (by omega)] at hp
        exact Bool.noConfusion hp
    · rw [if_neg hp, ih]
      constructor
      · intro h i h₁ h₂
        by_cases e : i = lo
        · subst e; simpa using hp
        · exact h i (by omega) (by omega)
      · intro h i h₁ h₂
        exact h i (by omega) (by omega)

/-- The found index of a search from `0`. -/
theorem firstIdx_some {p : ℕ → Bool} {n i : ℕ} (h : firstIdx p 0 n = some i) :
    i < n ∧ p i = true := by
  have := firstIdx_eq_some.mp h
  exact ⟨by omega, this.2.2.1⟩

/-- The scan `for (i = lo; i < lo + n; i++) if (p i && key i < min) { min = key i; pos = i; }`;
`none` stands for the initial position `-1`. -/
def argMin (p : ℕ → Bool) (key : ℕ → ℕ) (lo n : ℕ) (min : ℕ) (pos : Option ℕ) : ℕ × Option ℕ :=
  forRange lo n (fun i s => if p i = true ∧ key i < s.1 then (key i, some i) else s) (min, pos)

/-- What the scan from `0` finds: nothing when no key of a candidate is below the bound, else the
first candidate with the least key. -/
theorem argMin_spec (p : ℕ → Bool) (key : ℕ → ℕ) (n bound : ℕ) :
    match (argMin p key 0 n bound none).2 with
    | none => ∀ i < n, p i = true → bound ≤ key i
    | some k => k < n ∧ p k = true ∧ key k < bound ∧
        ∀ i < n, p i = true → key k ≤ key i ∧ (i < k → key k < key i) := by
  have h := forRange_inv
    (fun i (s : ℕ × Option ℕ) => if p i = true ∧ key i < s.1 then (key i, some i) else s)
    (fun m s => match s.2 with
      | none => s.1 = bound ∧ ∀ i < m, p i = true → bound ≤ key i
      | some k => k < m ∧ p k = true ∧ key k = s.1 ∧ key k < bound ∧
          ∀ i < m, p i = true → key k ≤ key i ∧ (i < k → key k < key i))
    n 0 (bound, none) ⟨rfl, fun i hi => by omega⟩ (fun m s _ _ hs => by
      obtain ⟨min, pos⟩ := s
      cases pos with
      | none =>
        obtain ⟨hb, hall⟩ := hs
        simp only at hb
        subst hb
        by_cases hc : p m = true ∧ key m < min
        · rw [if_pos hc]
          refine ⟨by omega, hc.1, rfl, hc.2, fun i hi hpi => ?_⟩
          by_cases e : i = m
          · subst e; exact ⟨le_refl _, fun h => absurd h (lt_irrefl _)⟩
          · have := hall i (by omega) hpi
            exact ⟨by omega, fun _ => by omega⟩
        · rw [if_neg hc]
          refine ⟨rfl, fun i hi hpi => ?_⟩
          by_cases e : i = m
          · subst e; by_contra hlt; exact hc ⟨hpi, by omega⟩
          · exact hall i (by omega) hpi
      | some k =>
        obtain ⟨hk, hpk, hmin, hb, hall⟩ := hs
        simp only at hmin
        by_cases hc : p m = true ∧ key m < min
        · rw [if_pos hc]
          refine ⟨by omega, hc.1, rfl, by omega, fun i hi hpi => ?_⟩
          by_cases e : i = m
          · subst e; exact ⟨le_refl _, fun h => absurd h (lt_irrefl _)⟩
          · have := (hall i (by omega) hpi).1
            exact ⟨by omega, fun _ => by omega⟩
        · rw [if_neg hc]
          refine ⟨by omega, hpk, hmin, hb, fun i hi hpi => ?_⟩
          by_cases e : i = m
          · subst e
            have : ¬ key i < min := fun h => hc ⟨hpi, h⟩
            exact ⟨by omega, fun h => by omega⟩
          · exact hall i (by omega) hpi)
  rw [Nat.zero_add] at h
  unfold argMin
  revert h
  generalize forRange 0 n _ (bound, none) = r
  obtain ⟨min, pos⟩ := r
  cases pos with
  | none => exact fun h => h.2
  | some k => exact fun h => ⟨h.1, h.2.1, h.2.2.2.1, h.2.2.2.2⟩

end Loop
