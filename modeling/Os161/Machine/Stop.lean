import Os161.Lib.Transition

set_option autoImplicit false

/-!
# Why a step does not happen

A step of one of the systems below either leads to a state, or it is not possible where it is
tried (`blocked`), or it ends the system with one of the kernel's panics.
-/

namespace Os161

/-- A thread of the kernel. -/
abbrev ThreadId : Type := ℕ

/-- The panics of the memory system. -/
inductive Panic
  | cannotFindVictim
  | swapfileFull
  | swapVaddrNotFound
  | swapInError
  | swapOutError
  | readonlyFault
  | userFault
  | kernelFault
  | invalidFree
  | nullPointer
  | kassert
  deriving DecidableEq, Repr

/-- The texts of the panics; that of a failed `KASSERT` is made by the macro. -/
def Panic.text : Panic → String
  | .cannotFindVictim => "Cannot find victim!\n"
  | .swapfileFull => "Swapfile - swapfile is full!\n"
  | .swapVaddrNotFound => "Swapfile - vaddr not found!\n"
  | .swapInError => "Swapfile - swap in error.\n"
  | .swapOutError => "Swapfile - swap out error.\n"
  | .readonlyFault => "dumbvm: got VM_FAULT_READONLY 0x%x\n"
  | .userFault => "I don't know how to handle this\n"
  | .kernelFault => "I can't handle this... I think I'll just die now...\n"
  | .invalidFree => "kfree: subpage free of invalid addr %p\n"
  | .nullPointer => "I can't handle this... I think I'll just die now...\n"
  | .kassert => ""

/-- The outcome of a step that leads to no state. -/
inductive Stop
  | blocked
  | panic (p : Panic)
  deriving DecidableEq, Repr

/-- A step that needs `p`. -/
def require (p : Prop) [Decidable p] : Except Stop Unit :=
  if p then .ok () else .error .blocked

@[simp] theorem require_eq_ok {p : Prop} [Decidable p] {u : Unit} : require p = .ok u ↔ p := by
  unfold require
  split_ifs with h <;> simp [h]

/-- A guarded step. -/
theorem require_bind_ok {α : Type} {p : Prop} [Decidable p] {f : Unit → Except Stop α} {b : α} :
    (require p >>= f) = .ok b ↔ p ∧ f () = .ok b := by
  rw [Transition.bind_eq_ok]
  constructor
  · rintro ⟨_, hp, h⟩
    exact ⟨require_eq_ok.mp hp, h⟩
  · rintro ⟨hp, h⟩
    exact ⟨(), require_eq_ok.mpr hp, h⟩

/-- A step whose needs are met. -/
theorem require_bind {α : Type} {p : Prop} [Decidable p] {f : Unit → Except Stop α} (h : p) :
    (require p >>= f) = f () := by
  unfold require
  rw [if_pos h]
  rfl

/-- `KASSERT`. -/
def kassert (p : Prop) [Decidable p] : Except Stop Unit :=
  if p then .ok () else .error (.panic .kassert)

/-- An assertion that holds. -/
theorem kassert_bind {α : Type} {p : Prop} [Decidable p] {f : Unit → Except Stop α} (h : p) :
    (kassert p >>= f) = f () := by
  unfold kassert
  rw [if_pos h]
  rfl

/-- A step after an assertion. -/
theorem kassert_bind_ok {α : Type} {p : Prop} [Decidable p] {f : Unit → Except Stop α} {b : α} :
    (kassert p >>= f) = .ok b ↔ p ∧ f () = .ok b := by
  unfold kassert
  split_ifs with hp
  · exact ⟨fun h => ⟨hp, h⟩, And.right⟩
  · simp [hp, bind, Except.bind]

/-- **The step does not panic**, and where it leads somewhere `P` holds. -/
def Safe {α : Type} (P : α → Prop) : Except Stop α → Prop
  | .ok a => P a
  | .error .blocked => True
  | .error (.panic _) => False

namespace Safe

variable {α β : Type} {P : α → Prop} {Q : β → Prop} {x : Except Stop α} {f : α → Except Stop β}

theorem bind (hx : Safe P x) (hf : ∀ a, P a → Safe Q (f a)) : Safe Q (x >>= f) := by
  cases x with
  | ok a => exact hf a hx
  | error e =>
    cases e with
    | blocked => trivial
    | panic p => exact hx.elim

theorem mono {R : α → Prop} (hx : Safe P x) (h : ∀ a, P a → R a) : Safe R x := by
  cases x with
  | ok a => exact h a hx
  | error e =>
    cases e with
    | blocked => trivial
    | panic p => exact hx

/-- What a step needs may be used for its result. -/
theorem require_bind {p : Prop} [Decidable p] {f : Unit → Except Stop α} (h : p → Safe P (f ())) :
    Safe P (require p >>= f) := by
  unfold require
  split_ifs with hp
  · exact h hp
  · trivial

theorem iff_ok : Safe P x ↔ (∀ p, x ≠ .error (.panic p)) ∧ ∀ a, x = .ok a → P a := by
  cases x with
  | ok a => simp [Safe]
  | error e =>
    cases e with
    | blocked => simp [Safe]
    | panic p => simp [Safe]

/-- **Runs of safe steps**, when each step meets a condition. -/
theorem run {S A : Type} {step : S → A → Except Stop S} {P : S → Prop} {C : S → A → Prop}
    (hstep : ∀ s a, P s → C s a → Safe P (step s a)) :
    ∀ {as : List A} {s : S}, P s → Transition.Along step C s as →
      Safe P (Transition.run step s as)
  | [], _, hs, _ => hs
  | a :: as, s, hs, hC => by
    rw [Transition.run_cons]
    have hone := hstep s a hs hC.1
    cases hr : step s a with
    | ok t =>
      rw [hr] at hone
      exact run hstep hone (hC.2 t hr)
    | error e =>
      rw [hr] at hone
      cases e with
      | blocked => trivial
      | panic p => exact hone.elim

end Safe

end Os161
