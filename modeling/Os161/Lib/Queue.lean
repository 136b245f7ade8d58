import Os161.Lib.Transition

set_option autoImplicit false

/-!
# Queues in a system

A queue that elements join at the end, and leave at the front, or at the end. An element that stays gets
its turn after as many others as were in front of it when it came, however long the queue grows behind
it.

* `QueueStep`: one step of the queue, with the number of elements that leave at the front.
* `Transition.turns`: how many of them a run takes from the front.
* **`Transition.run_queue`**: where an element is after a run.
-/

section Queue

variable {α : Type} {q q' xs ys : List α} {x : α} {k : ℕ}

/-- Elements join the queue at the end, or one leaves it. -/
inductive QueueStep : List α → List α → ℕ → Prop
  | join {q q' : List α} (h : q <+: q') : QueueStep q q' 0
  | front (x : α) (q : List α) : QueueStep (x :: q) q 1
  | back (q : List α) (x : α) : QueueStep (q ++ [x]) q 0

namespace QueueStep

/-- **An element that stays** comes nearer by those that leave at the front. -/
theorem stays (h : QueueStep q q' k) (hnd : q.Nodup) (hq : q = xs ++ x :: ys) (hx : x ∈ q') :
    k ≤ xs.length ∧ ∃ ys', q' = xs.drop k ++ x :: ys' := by
  cases h with
  | join hpre =>
    obtain ⟨zs, rfl⟩ := hpre
    exact ⟨Nat.zero_le _, ys ++ zs, by rw [hq, List.drop_zero, List.append_assoc, List.cons_append]⟩
  | front u =>
    cases xs with
    | nil =>
      rw [List.nil_append] at hq
      obtain ⟨rfl, rfl⟩ := List.cons.inj hq
      exact absurd hx (List.nodup_cons.mp hnd).1
    | cons v vs =>
      rw [List.cons_append] at hq
      obtain ⟨rfl, rfl⟩ := List.cons.inj hq
      exact ⟨Nat.succ_le_succ (Nat.zero_le _), ys, rfl⟩
  | back _ u =>
    rcases List.eq_nil_or_concat' ys with rfl | ⟨zs, v, rfl⟩
    · obtain ⟨rfl, huv⟩ := List.append_inj' hq rfl
      obtain rfl := (List.cons.inj huv).1
      exact absurd rfl ((List.nodup_append.mp hnd).2.2 u hx u (List.mem_singleton_self u))
    · rw [← List.cons_append, ← List.append_assoc] at hq
      obtain ⟨rfl, -⟩ := List.append_inj' hq rfl
      exact ⟨Nat.zero_le _, zs, rfl⟩

/-- **An element that leaves** was at the front, or at the end. -/
theorem leaves (h : QueueStep q q' k) (hq : q = xs ++ x :: ys) (hx : x ∉ q') :
    k = 1 ∧ xs = [] ∨ k = 0 ∧ ys = [] ∧ q' = xs := by
  cases h with
  | join hpre =>
    refine absurd (hpre.subset ?_) hx
    rw [hq]
    exact List.mem_append_right _ (List.mem_cons_self ..)
  | front u =>
    cases xs with
    | nil => exact .inl ⟨rfl, rfl⟩
    | cons v vs =>
      rw [List.cons_append] at hq
      obtain ⟨-, rfl⟩ := List.cons.inj hq
      exact absurd (List.mem_append_right _ (List.mem_cons_self ..)) hx
  | back _ u =>
    rcases List.eq_nil_or_concat' ys with rfl | ⟨zs, v, rfl⟩
    · exact .inr ⟨rfl, rfl, (List.append_inj' hq rfl).1⟩
    · rw [← List.cons_append, ← List.append_assoc] at hq
      obtain ⟨rfl, -⟩ := List.append_inj' hq rfl
      exact absurd (List.mem_append_right _ (List.mem_cons_self ..)) hx

end QueueStep

end Queue

namespace Transition

section Runs

variable {S A E α : Type} (step : S → A → Except E S) (count : S → A → ℕ)

/-- The number of elements that the run takes from the front. -/
def turns : S → List A → ℕ
  | _, [] => 0
  | s, a :: as =>
    count s a + match step s a with
      | .ok t => turns t as
      | .error _ => 0

theorem turns_cons_of_ok {s t : S} {a : A} (as : List A) (h : step s a = .ok t) :
    turns step count s (a :: as) = count s a + turns step count t as := by
  rw [turns, h]

/-- **Where an element is after a run** in which it stays in the queue. -/
theorem run_queue {P : S → Prop} {C : S → A → Prop} {queue : S → List α} {x : α}
    (hnd : ∀ s, P s → (queue s).Nodup)
    (hstep : ∀ s a t, P s → C s a → step s a = .ok t →
      P t ∧ QueueStep (queue s) (queue t) (count s a)) :
    ∀ {as : List A} {s t : S} {xs ys : List α}, P s → Along step (fun s a => C s a ∧ x ∈ queue s) s as →
      run step s as = .ok t → x ∈ queue t → queue s = xs ++ x :: ys →
      turns step count s as ≤ xs.length ∧ ∃ ys', queue t = xs.drop (turns step count s as) ++ x :: ys'
  | [], s, t, xs, ys, _, _, hr, _, hq => by
    cases hr
    exact ⟨Nat.zero_le _, ys, hq⟩
  | a :: as, s, t, xs, ys, hs, hC, hr, hx, hq => by
    rw [run_cons, bind_eq_ok] at hr
    obtain ⟨u, hu, hr⟩ := hr
    obtain ⟨⟨hCa, -⟩, hrest⟩ := hC
    obtain ⟨hPu, hone⟩ := hstep s a u hs hCa hu
    have hxu : x ∈ queue u := by
      cases as with
      | nil =>
        cases hr
        exact hx
      | cons b bs => exact (hrest u hu).1.2
    obtain ⟨hle, zs, hqu⟩ := hone.stays (hnd s hs) hq hxu
    obtain ⟨hle', ys', hqt⟩ := run_queue hnd hstep hPu (hrest u hu) hr hx hqu
    rw [List.length_drop] at hle'
    rw [turns_cons_of_ok step count as hu]
    refine ⟨by omega, ys', ?_⟩
    rw [hqt, List.drop_drop]

end Runs

end Transition
