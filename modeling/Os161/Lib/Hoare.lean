import Mathlib.Tactic.Common

set_option autoImplicit false

/-!
# Triples of programs with a state that may stop

A program is an `α` of `StateT S (Except E)`. A triple says what holds after a result, and under
which condition the program does not stop without one.

* `Triple ok P m Q`: from a state with `P` a result `a` comes with `Q a`, and if `ok` there is one.
* `Triple.pure`, `Triple.bind`, `Triple.mono`, `Triple.ite`: the rules of composition.
* `Triple.result`, `Triple.total`: what a triple says of one run.
-/

namespace Hoare

variable {S E α β : Type} {ok : Prop} {P P' : S → Prop} {Q Q' : α → S → Prop}
  {m : StateT S (Except E) α}

/-- **`P` before and `Q` after**; the program stops without a result only if `ok` fails. -/
def Triple (ok : Prop) (P : S → Prop) (m : StateT S (Except E) α) (Q : α → S → Prop) : Prop :=
  ∀ s, P s → match m s with
    | .ok (a, t) => Q a t
    | .error _ => ¬ ok

namespace Triple

/-- A triple of a program that has a result in every state. -/
theorem of_ok (h : ∀ s, P s → ∃ a t, m s = .ok (a, t) ∧ Q a t) : Triple ok P m Q := by
  intro s hs
  obtain ⟨a, t, hm, hq⟩ := h s hs
  rw [hm]
  exact hq

theorem pure {a : α} (h : ∀ s, P s → Q a s) : Triple (E := E) ok P (pure a) Q :=
  of_ok fun s hs => ⟨a, s, rfl, h s hs⟩

/-- **Two programs one after the other.** -/
theorem bind {f : α → StateT S (Except E) β} {R : β → S → Prop} (hm : Triple ok P m Q)
    (hf : ∀ a, Triple ok (Q a) (f a) R) : Triple ok P (m >>= f) R := by
  intro s hs
  have h := hm s hs
  change match (m s >>= fun r => f r.1 r.2) with
    | .ok (b, t) => R b t
    | .error _ => ¬ ok
  cases hr : m s with
  | error e =>
    rw [hr] at h
    exact h
  | ok r =>
    rw [hr] at h
    exact hf r.1 r.2 h

theorem mono (h : Triple ok P m Q) (hP : ∀ s, P' s → P s) (hQ : ∀ a s, Q a s → Q' a s) :
    Triple ok P' m Q' := by
  intro s hs
  have hm := h s (hP s hs)
  cases hr : m s with
  | error e =>
    rw [hr] at hm
    exact hm
  | ok r =>
    rw [hr] at hm
    exact hQ r.1 r.2 hm

/-- More may be needed to run to the end. -/
theorem weaken {ok' : Prop} (h : Triple ok P m Q) (hok : ok' → ok) : Triple ok' P m Q := by
  intro s hs
  have hm := h s hs
  cases hr : m s with
  | error e =>
    rw [hr] at hm
    exact fun h' => hm (hok h')
  | ok r =>
    rw [hr] at hm
    exact hm

theorem ite {c : Prop} [Decidable c] {m' : StateT S (Except E) α} (hm : c → Triple ok P m Q)
    (hm' : ¬ c → Triple ok P m' Q) : Triple ok P (if c then m else m') Q := by
  by_cases hc : c
  · rw [if_pos hc]
    exact hm hc
  · rw [if_neg hc]
    exact hm' hc

/-- A program that reads the state first. -/
theorem get_bind {f : S → StateT S (Except E) β} {R : β → S → Prop}
    (h : ∀ s, P s → Triple ok (fun t => t = s) (f s) R) : Triple ok P (get >>= f) R := by
  intro s hs
  exact h s hs s rfl

/-- A program that reads the state first and keeps the precondition in mind. -/
theorem get_bind_keep {f : S → StateT S (Except E) β} {R : β → S → Prop}
    (h : ∀ s, P s → Triple ok P (f s) R) : Triple ok P (get >>= f) R :=
  get_bind fun s hs => (h s hs).mono (fun _ ht => ht ▸ hs) fun _ _ hq => hq

/-- A program that only stops. -/
theorem error {e : E} (h : ∀ s, P s → ¬ ok) : Triple ok P (fun _ => .error e) Q :=
  fun s hs => h s hs

/-- A step without the state. -/
theorem lift_bind {x : Except E α} {f : α → StateT S (Except E) β} {R : β → S → Prop}
    (hx : ok → ∃ a, x = .ok a) (hf : ∀ a, x = .ok a → Triple ok P (f a) R) :
    Triple ok P (liftM x >>= f) R := by
  cases x with
  | error e =>
    intro s _ hok
    obtain ⟨a, ha⟩ := hx hok
    cases ha
  | ok a => exact hf a rfl

/-- What the triple says of a run with a result. -/
theorem result (h : Triple ok P m Q) {s t : S} {a : α} (hs : P s) (hm : m s = .ok (a, t)) :
    Q a t := by
  have hq := h s hs
  rw [hm] at hq
  exact hq

/-- **There is a result** if `ok`. -/
theorem total (h : Triple ok P m Q) (hok : ok) {s : S} (hs : P s) :
    ∃ a t, m s = .ok (a, t) ∧ Q a t := by
  have hq := h s hs
  cases hr : m s with
  | error e =>
    rw [hr] at hq
    exact absurd hok hq
  | ok r =>
    rw [hr] at hq
    exact ⟨r.1, r.2, rfl, hq⟩

end Triple

end Hoare
