import Mathlib.Data.List.Basic
import Mathlib.Order.OrderIsoNat
import Mathlib.Tactic.Cases

set_option autoImplicit false

/-!
# Runs of an executable transition system

A system is a step function `step : S → A → Except E S`: an action either leads to a state or stops
the system with a reason in `E`. A run is a list of actions.

* `run`, `run_append`, `run_concat`: runs and their composition.
* `run_inv`: an invariant of every step is an invariant of every run.
* `Along`, `run_inv_along`: the same when the steps of the run meet a condition; `run_inv_history`: and
  the invariant speaks of the actions so far.
* `exists_forall_not_mark`: actions that bring a measure down come to an end.
* `run_lift`: a run of one system gives a run of another one that follows it step by step.
-/

namespace Transition

variable {S A E : Type}

/-- The result of a bind is a result of both parts. -/
theorem bind_eq_ok {α β : Type} {x : Except E α} {f : α → Except E β} {b : β} :
    x >>= f = .ok b ↔ ∃ a, x = .ok a ∧ f a = .ok b := by
  cases x with
  | error e => simp [bind, Except.bind]
  | ok a => simp [bind, Except.bind]

/-- A bind stops where one of its parts does. -/
theorem bind_eq_error {α β : Type} {x : Except E α} {f : α → Except E β} {e : E} :
    x >>= f = .error e ↔ x = .error e ∨ ∃ a, x = .ok a ∧ f a = .error e := by
  cases x with
  | error e' => simp [bind, Except.bind]
  | ok a => simp [bind, Except.bind]

/-- A computed observation of a result that is there. -/
theorem exists_ok_of_toOption {α β : Type} {x : Except E α} {f : α → β} {b : β}
    (h : x.toOption.map f = some b) : ∃ a, x = .ok a ∧ f a = b := by
  cases x with
  | error e => cases h
  | ok a => exact ⟨a, rfl, Option.some.inj h⟩

/-- A result of a map is the image of a result. -/
theorem map_eq_ok {α β : Type} {x : Except E α} {f : α → β} {b : β} (h : x.map f = .ok b) :
    ∃ a, x = .ok a ∧ f a = b := by
  cases x with
  | error e => cases h
  | ok a => exact ⟨a, rfl, Except.ok.inj h⟩

/-- The state after the actions `as`. -/
def run (step : S → A → Except E S) (s : S) (as : List A) : Except E S := as.foldlM step s

variable (step : S → A → Except E S)

@[simp] theorem run_nil (s : S) : run step s [] = .ok s := rfl

theorem run_cons (s : S) (a : A) (as : List A) :
    run step s (a :: as) = step s a >>= fun s' => run step s' as := rfl

/-- A run whose first action is known. -/
theorem run_cons_of_ok {s t : S} {a : A} (as : List A) (h : step s a = .ok t) :
    run step s (a :: as) = run step t as := by
  rw [run_cons, h]
  rfl

theorem run_append (s : S) (as bs : List A) :
    run step s (as ++ bs) = run step s as >>= fun s' => run step s' bs :=
  List.foldlM_append

/-- A run that goes on from where another one led. -/
theorem run_append_of_ok {s t : S} {as : List A} (bs : List A) (h : run step s as = .ok t) :
    run step s (as ++ bs) = run step t bs := by
  rw [run_append, h]
  rfl

theorem run_append_ok {s t : S} {as bs : List A} :
    run step s (as ++ bs) = .ok t ↔ ∃ u, run step s as = .ok u ∧ run step u bs = .ok t := by
  rw [run_append, bind_eq_ok]

theorem run_concat_ok {s t : S} {as : List A} {a : A} :
    run step s (as ++ [a]) = .ok t ↔ ∃ u, run step s as = .ok u ∧ step u a = .ok t := by
  rw [run_append_ok]
  simp [run]

/-- **An invariant of every step is an invariant of every run.** -/
theorem run_inv {P : S → Prop} (hstep : ∀ s a t, P s → step s a = .ok t → P t) :
    ∀ {as : List A} {s t : S}, P s → run step s as = .ok t → P t
  | [], s, t, hs, h => by cases h; exact hs
  | a :: as, s, t, hs, h => by
    rw [run_cons, bind_eq_ok] at h
    obtain ⟨u, hu, ht⟩ := h
    exact run_inv hstep (hstep s a u hs hu) ht

/-- Every step of the run from `s` meets the condition `C`. -/
def Along (C : S → A → Prop) : S → List A → Prop
  | _, [] => True
  | s, a :: as => C s a ∧ ∀ t, step s a = .ok t → Along C t as

theorem Along.mono {C D : S → A → Prop} (hCD : ∀ s a, C s a → D s a) :
    ∀ {as : List A} {s : S}, Along step C s as → Along step D s as
  | [], _, _ => trivial
  | _ :: _, _, h => ⟨hCD _ _ h.1, fun t ht => Along.mono hCD (h.2 t ht)⟩

/-- A condition on the actions alone. -/
theorem Along.of_forall {C : S → A → Prop} :
    ∀ {as : List A} {s : S}, (∀ a ∈ as, ∀ s, C s a) → Along step C s as
  | [], _, _ => trivial
  | a :: _, s, h => ⟨h a (List.mem_cons_self ..) s, fun _ _ =>
      Along.of_forall fun b hb => h b (List.mem_cons_of_mem a hb)⟩

/-- Two conditions along a run. -/
theorem Along.and {C D : S → A → Prop} :
    ∀ {as : List A} {s : S}, Along step C s as → Along step D s as →
      Along step (fun s a => C s a ∧ D s a) s as
  | [], _, _, _ => trivial
  | _ :: _, _, h, h' => ⟨⟨h.1, h'.1⟩, fun t ht => Along.and (h.2 t ht) (h'.2 t ht)⟩

/-- A condition that follows from what some actions preserve. -/
theorem Along.of_inv {C : S → A → Prop} {P : S → Prop} {Q : A → Prop}
    (hstep : ∀ s a t, P s → Q a → step s a = .ok t → P t) (hC : ∀ s a, P s → Q a → C s a) :
    ∀ {as : List A} {s : S}, P s → (∀ a ∈ as, Q a) → Along step C s as
  | [], _, _, _ => trivial
  | a :: _, s, hs, h => ⟨hC s a hs (h a (List.mem_cons_self ..)), fun t ht =>
      Along.of_inv hstep hC (hstep s a t hs (h a (List.mem_cons_self ..)) ht) fun b hb =>
        h b (List.mem_cons_of_mem a hb)⟩

/-- The condition along one run and another one that goes on from where it led. -/
theorem Along.append {C : S → A → Prop} {bs : List A} :
    ∀ {as : List A} {s : S}, Along step C s as →
      (∀ t, run step s as = .ok t → Along step C t bs) → Along step C s (as ++ bs)
  | [], s, _, h => h s rfl
  | a :: as, s, hC, h => ⟨hC.1, fun t ht => Along.append (hC.2 t ht) fun u hu =>
      h u (by rw [run_cons_of_ok step as ht]; exact hu)⟩

/-- The condition can be checked along a given run. -/
instance decidableAlong {C : S → A → Prop} [∀ s a, Decidable (C s a)] :
    ∀ (s : S) (as : List A), Decidable (Along step C s as)
  | _, [] => inferInstanceAs (Decidable True)
  | s, a :: as =>
    match h : step s a with
    | .ok t =>
      have : Decidable (Along step C t as) := decidableAlong t as
      decidable_of_iff (C s a ∧ Along step C t as)
        ⟨fun hc => ⟨hc.1, fun u hu => by cases h.symm.trans hu; exact hc.2⟩,
          fun hc => ⟨hc.1, hc.2 t h⟩⟩
    | .error _ =>
      decidable_of_iff (C s a)
        ⟨fun hc => ⟨hc, fun u hu => by cases h.symm.trans hu⟩, fun hc => hc.1⟩

/-- **Invariants of runs whose steps meet a condition.** -/
theorem run_inv_along {P : S → Prop} {C : S → A → Prop}
    (hstep : ∀ s a t, P s → C s a → step s a = .ok t → P t) :
    ∀ {as : List A} {s t : S}, P s → Along step C s as → run step s as = .ok t → P t
  | [], s, t, hs, _, h => by cases h; exact hs
  | a :: as, s, t, hs, hC, h => by
    rw [run_cons, bind_eq_ok] at h
    obtain ⟨u, hu, ht⟩ := h
    exact run_inv_along hstep (hstep s a u hs hC.1 hu) (hC.2 u hu) ht

/-- **Invariants that speak of the actions so far**, by a history `g` that is kept of them. -/
theorem run_inv_history {H : Type} {P : S → H → Prop} {C : S → A → Prop} (g : H → A → H)
    (hstep : ∀ s m a t, P s m → C s a → step s a = .ok t → P t (g m a)) :
    ∀ {as : List A} {s t : S} {m : H}, P s m → Along step C s as → run step s as = .ok t →
      P t (as.foldl g m)
  | [], s, t, m, hs, _, h => by cases h; exact hs
  | a :: as, s, t, m, hs, hC, h => by
    rw [run_cons, bind_eq_ok] at h
    obtain ⟨u, hu, ht⟩ := h
    have hrest : P t (as.foldl g (g m a)) :=
      run_inv_history g hstep (hstep s m a u hs hC.1 hu) (hC.2 u hu) ht
    exact hrest

/-- **In an infinite run the actions that bring a measure down come to an end**, when the others do not
raise it. -/
theorem exists_forall_not_mark {M : Type} [PartialOrder M] [WellFoundedLT M] {μ : ℕ → M}
    {mark : ℕ → Prop} (hle : ∀ n, μ (n + 1) ≤ μ n) (hlt : ∀ n, mark n → μ (n + 1) < μ n) :
    ∃ N, ∀ n, N ≤ n → ¬ mark n := by
  obtain ⟨N, hN⟩ := WellFoundedGT.monotone_chain_condition (α := Mᵒᵈ)
    ⟨fun n => OrderDual.toDual (μ n), monotone_nat_of_le_succ hle⟩
  refine ⟨N, fun n hn hmark => ?_⟩
  have h : μ n = μ (n + 1) := (hN n hn).symm.trans (hN (n + 1) (Nat.le_succ_of_le hn))
  exact (hlt n hmark).ne h.symm

/-- **A system that follows another one step by step follows its runs.** Each step of the first
system is matched by some actions of the second. -/
theorem run_lift {S' A' E' : Type} (step' : S' → A' → Except E' S') (R : S → S' → Prop)
    (hstep : ∀ s s' a t, R s s' → step s a = .ok t →
      ∃ as' t', run step' s' as' = .ok t' ∧ R t t') :
    ∀ {as : List A} {s : S} {s' : S'} {t : S}, R s s' → run step s as = .ok t →
      ∃ as' t', run step' s' as' = .ok t' ∧ R t t'
  | [], s, s', t, hR, h => by cases h; exact ⟨[], s', rfl, hR⟩
  | a :: as, s, s', t, hR, h => by
    rw [run_cons, bind_eq_ok] at h
    obtain ⟨u, hu, ht⟩ := h
    obtain ⟨as₁, u', hu', hR'⟩ := hstep s s' a u hR hu
    obtain ⟨as₂, t', ht', hR''⟩ := run_lift step' R hstep hR' ht
    exact ⟨as₁ ++ as₂, t', (run_append_ok step').mpr ⟨u', hu', ht'⟩, hR''⟩

end Transition
