import Os161.Lib.Transition

set_option autoImplicit false

/-!
# Programs that wait for a device

A program works on a memory that it shares with others and sends requests to a device. It sleeps from
a request to the reply, and whatever happens to the memory meanwhile is what it wakes up to.

* `Prog`: a program that has been started; `Program`: a program, with `bind`.
* `Prog.run`: the run of a program that nobody interrupts.
* `run_bind`: the run of one program after another.
* `sent`: the requests of a run; `sent_bind`: those of one program after another.
* **`run_match`**: on two devices that match, a program does the same; **`run_follow`**: the same for a
  device that matches as long as it does well.
-/

/-- A program that has been started: it has ended with a result, it has stopped the machine, or it
leaves the memory `m` and waits with a request, which is made from the memory at the time when the
device takes it. -/
inductive Prog (E M Q R α : Type) : Type
  | done (a : α) (m : M)
  | stop (e : E)
  | request (m : M) (q : M → Q) (k : R → M → Prog E M Q R α)

/-- A program, to be started in a memory. -/
def Program (E M Q R α : Type) : Type := M → Prog E M Q R α

namespace Prog

variable {E M Q R α β D D₁ D₂ : Type}

/-- The program goes on as `f` where it ends. -/
def andThen : Prog E M Q R α → (α → Program E M Q R β) → Prog E M Q R β
  | done a m, f => f a m
  | stop e, _ => stop e
  | request m q k, f => request m q fun r m => (k r m).andThen f

/-- **The run** of a program that nobody interrupts, on the device `dev`. -/
def run (dev : D → Q → Except E (R × D)) : Prog E M Q R α → D → Except E (α × M × D)
  | done a m, d => .ok (a, m, d)
  | stop e, _ => .error e
  | request m q k, d => dev d (q m) >>= fun r => (k r.1 m).run dev r.2

/-- The requests of the run. -/
def sent (dev : D → Q → Except E (R × D)) : Prog E M Q R α → D → List Q
  | done _ _, _ => []
  | stop _, _ => []
  | request m q k, d => q m :: match dev d (q m) with
    | .ok r => (k r.1 m).sent dev r.2
    | .error _ => []

end Prog

namespace Program

variable {E M Q R α β D D₁ D₂ : Type}

instance : Monad (Program E M Q R) where
  pure a := fun m => .done a m
  bind x f := fun m => (x m).andThen f

theorem andThen_assoc {γ : Type} (p : Prog E M Q R α) (f : α → Program E M Q R β)
    (g : β → Program E M Q R γ) :
    (p.andThen f).andThen g = p.andThen fun a m => (f a m).andThen g := by
  induction p with
  | done a m => rfl
  | stop e => rfl
  | request m q k ih => exact congrArg (Prog.request m q) (funext₂ ih)

theorem andThen_done (p : Prog E M Q R α) : p.andThen (fun a m => .done a m) = p := by
  induction p with
  | done a m => rfl
  | stop e => rfl
  | request m q k ih => exact congrArg (Prog.request m q) (funext₂ ih)

instance : LawfulMonad (Program E M Q R) :=
  LawfulMonad.mk' _ (fun x => funext fun m => andThen_done (x m)) (fun _ _ => rfl)
    (fun x f g => funext fun m => andThen_assoc (x m) f g)

/-- The memory. -/
def get : Program E M Q R M := fun m => .done m m

/-- The memory is replaced. -/
def set (m : M) : Program E M Q R Unit := fun _ => .done () m

/-- The memory is changed. -/
def modify (f : M → M) : Program E M Q R Unit := fun m => .done () (f m)

/-- The machine is stopped. -/
def stop (e : E) : Program E M Q R α := fun _ => .stop e

/-- A request to the device. -/
def request (q : M → Q) : Program E M Q R R := fun m => .request m q fun r m => .done r m

/-- The run of a program from the memory `m`. -/
def run (dev : D → Q → Except E (R × D)) (x : Program E M Q R α) (m : M) (d : D) :
    Except E (α × M × D) := (x m).run dev d

section Run

variable {dev : D → Q → Except E (R × D)} {x : Program E M Q R α} {f : α → Program E M Q R β}
  {m : M} {d : D}

@[simp] theorem run_pure (a : α) : run dev (pure a : Program E M Q R α) m d = .ok (a, m, d) := rfl

theorem run_andThen (p : Prog E M Q R α) (d : D) :
    (p.andThen f).run dev d = p.run dev d >>= fun r => run dev (f r.1) r.2.1 r.2.2 := by
  induction p generalizing d with
  | done a m => rfl
  | stop e => rfl
  | request m q k ih =>
    change (dev d (q m) >>= fun r => ((k r.1 m).andThen f).run dev r.2) =
      (dev d (q m) >>= fun r => (k r.1 m).run dev r.2) >>= _
    cases dev d (q m) with
    | error e => rfl
    | ok r => exact ih r.1 m r.2

/-- **One program after another.** -/
@[simp] theorem run_bind :
    run dev (x >>= f) m d = run dev x m d >>= fun r => run dev (f r.1) r.2.1 r.2.2 :=
  run_andThen (x m) d

@[simp] theorem run_get : run dev (get : Program E M Q R M) m d = .ok (m, m, d) := rfl

@[simp] theorem run_set (m' : M) : run dev (set m' : Program E M Q R Unit) m d = .ok ((), m', d) :=
  rfl

@[simp] theorem run_modify (g : M → M) :
    run dev (modify g : Program E M Q R Unit) m d = .ok ((), g m, d) := rfl

@[simp] theorem run_stop (e : E) : run dev (stop e : Program E M Q R α) m d = .error e := rfl

@[simp] theorem run_request (q : M → Q) :
    run dev (request q : Program E M Q R R) m d =
      dev d (q m) >>= fun r => .ok (r.1, m, r.2) := rfl

theorem run_ite {c : Prop} [Decidable c] (y : Program E M Q R α) :
    run dev (if c then x else y) m d = if c then run dev x m d else run dev y m d := by
  split_ifs <;> rfl

end Run

section Sent

variable {dev : D → Q → Except E (R × D)} {x : Program E M Q R α} {f : α → Program E M Q R β}
  {m m' : M} {d d' : D} {a : α}

/-- The requests of a run from the memory `m`. -/
def sent (dev : D → Q → Except E (R × D)) (x : Program E M Q R α) (m : M) (d : D) : List Q :=
  (x m).sent dev d

theorem sent_andThen (p : Prog E M Q R α) (d : D) (h : p.run dev d = .ok (a, m', d')) :
    (p.andThen f).sent dev d = p.sent dev d ++ sent dev (f a) m' d' := by
  induction p generalizing d with
  | done b m =>
    cases h
    rfl
  | stop e => cases h
  | request m q k ih =>
    obtain ⟨r, hr, hk⟩ := Transition.bind_eq_ok.mp h
    have hsent := ih r.1 m r.2 hk
    simp only [Prog.andThen, Prog.sent, hr, List.cons_append, hsent]

/-- **The requests of one program after another.** -/
theorem sent_bind (h : run dev x m d = .ok (a, m', d')) :
    sent dev (x >>= f) m d = sent dev x m d ++ sent dev (f a) m' d' := sent_andThen (x m) d h

/-- **A run without requests** is the same on every device. -/
theorem run_of_sent_nil {D' : Type} {dev' : D' → Q → Except E (R × D')} (p : Prog E M Q R α) (d : D)
    (hsent : p.sent dev d = []) (h : p.run dev d = .ok (a, m', d')) :
    d' = d ∧ ∀ e, p.run dev' e = .ok (a, m', e) := by
  cases p with
  | done b m =>
    cases h
    exact ⟨rfl, fun _ => rfl⟩
  | stop e => cases h
  | request m q k =>
    rw [Prog.sent] at hsent
    cases hsent

/-- A request of one program after another is one of the first or one of the second. -/
theorem mem_sent_andThen {q : Q} (p : Prog E M Q R α) :
    ∀ d, q ∈ (p.andThen f).sent dev d → q ∈ p.sent dev d ∨ ∃ a m' d', q ∈ sent dev (f a) m' d' := by
  induction p with
  | done a m => exact fun d h => .inr ⟨a, m, d, h⟩
  | stop e => exact fun d h => by cases h
  | request m q' k ih =>
    intro d h
    simp only [Prog.andThen, Prog.sent, List.mem_cons] at h ⊢
    rcases h with rfl | h
    · exact .inl (.inl rfl)
    · cases hr : dev d (q' m) with
      | error e =>
        rw [hr] at h
        cases h
      | ok r =>
        rw [hr] at h
        rcases ih r.1 m r.2 h with h | h
        · exact .inl (.inr h)
        · exact .inr h

theorem mem_sent_bind {q : Q} (h : q ∈ sent dev (x >>= f) m d) :
    q ∈ sent dev x m d ∨ ∃ a m' d', q ∈ sent dev (f a) m' d' := mem_sent_andThen (x m) d h

/-- **A device that requests of one kind leave as it is** is the same after a run of such requests. -/
theorem run_of_sent {P : Q → Prop} {S : D → D → Prop} (hrefl : ∀ d, S d d)
    (htrans : ∀ d₁ d₂ d₃, S d₁ d₂ → S d₂ d₃ → S d₁ d₃)
    (hdev : ∀ d q r d', P q → dev d q = .ok (r, d') → S d d') (p : Prog E M Q R α) :
    ∀ d a m' d', (∀ q ∈ p.sent dev d, P q) → p.run dev d = .ok (a, m', d') → S d d' := by
  induction p with
  | done b m =>
    intro d a m' d' _ h
    cases h
    exact hrefl d
  | stop e =>
    intro d a m' d' _ h
    cases h
  | request m q k ih =>
    intro d a m' d' hP h
    obtain ⟨r, hr, hk⟩ := Transition.bind_eq_ok.mp h
    simp only [Prog.sent, hr] at hP
    exact htrans _ _ _ (hdev d _ r.1 r.2 (hP _ (List.mem_cons_self ..)) hr)
      (ih r.1 m r.2 a m' d' (fun q hq => hP q (List.mem_cons_of_mem _ hq)) hk)

end Sent

section Match

variable {dev₁ : D₁ → Q → Except E (R × D₁)} {dev₂ : D₂ → Q → Except E (R × D₂)}
  {S : D₁ → D₂ → Prop}

/-- The results are the same, and the devices still match. -/
def Match (S : D₁ → D₂ → Prop) : Except E (α × D₁) → Except E (α × D₂) → Prop
  | .ok (a, d₁), .ok (b, d₂) => a = b ∧ S d₁ d₂
  | .error e, .error e' => e = e'
  | _, _ => False

/-- The result with the memory on one side and the device on the other. -/
def split (r : Except E (α × M × D)) : Except E ((α × M) × D) := r.map fun r => ((r.1, r.2.1), r.2.2)

/-- **Devices that match request by request match run by run.** -/
theorem run_match (hdev : ∀ d₁ d₂ q, S d₁ d₂ → Match S (dev₁ d₁ q) (dev₂ d₂ q)) (p : Prog E M Q R α) :
    ∀ d₁ d₂, S d₁ d₂ → Match S (split (p.run dev₁ d₁)) (split (p.run dev₂ d₂)) := by
  induction p with
  | done a m => exact fun d₁ d₂ h => ⟨rfl, h⟩
  | stop e => exact fun _ _ _ => rfl
  | request m q k ih =>
    intro d₁ d₂ h
    have hq := hdev d₁ d₂ (q m) h
    change Match S (split (dev₁ d₁ (q m) >>= _)) (split (dev₂ d₂ (q m) >>= _))
    cases h₁ : dev₁ d₁ (q m) <;> cases h₂ : dev₂ d₂ (q m) <;> rw [h₁, h₂] at hq
    case request.error.error => exact hq
    case request.error.ok => exact hq.elim
    case request.ok.error => exact hq.elim
    case request.ok.ok r₁ r₂ =>
      obtain ⟨he, hS⟩ := hq
      change Match S (split ((k r₁.1 m).run dev₁ r₁.2)) (split ((k r₂.1 m).run dev₂ r₂.2))
      rw [he]
      exact ih _ m _ _ hS

/-- A device that does well after a run has done so before. -/
theorem run_good {Good : D₁ → Prop} (hgood : ∀ d q r d', dev₁ d q = .ok (r, d') → Good d' → Good d)
    (p : Prog E M Q R α) :
    ∀ d a m d', p.run dev₁ d = .ok (a, m, d') → Good d' → Good d := by
  induction p with
  | done a m =>
    intro d b m' d' he hg
    cases he
    exact hg
  | stop e =>
    intro d b m' d' he
    cases he
  | request m q k ih =>
    intro d b m' d' he hg
    obtain ⟨r, hr, hk⟩ := Transition.bind_eq_ok.mp he
    exact hgood d _ r.1 r.2 hr (ih _ m _ b m' d' hk hg)

/-- **A device that matches as long as it does well**: a run after which it has done well is a run on
the other device. -/
theorem run_follow {Good : D₁ → Prop} (hgood : ∀ d q r d', dev₁ d q = .ok (r, d') → Good d' → Good d)
    (hdev : ∀ d₁ d₂ q r d₁', S d₁ d₂ → dev₁ d₁ q = .ok (r, d₁') → Good d₁' →
      ∃ d₂', dev₂ d₂ q = .ok (r, d₂') ∧ S d₁' d₂')
    (p : Prog E M Q R α) : ∀ d₁ d₂ a m d₁', S d₁ d₂ → p.run dev₁ d₁ = .ok (a, m, d₁') → Good d₁' →
      ∃ d₂', p.run dev₂ d₂ = .ok (a, m, d₂') ∧ S d₁' d₂' := by
  induction p with
  | done a m =>
    intro d₁ d₂ b m' d₁' h he _
    cases he
    exact ⟨d₂, rfl, h⟩
  | stop e =>
    intro d₁ d₂ b m' d₁' _ he
    cases he
  | request m q k ih =>
    intro d₁ d₂ b m' d₁' h he hg
    obtain ⟨r, hr, hk⟩ := Transition.bind_eq_ok.mp he
    obtain ⟨d₂', hd₂, hS⟩ :=
      hdev d₁ d₂ (q m) r.1 r.2 h hr (run_good hgood _ _ _ _ _ hk hg)
    obtain ⟨d₂'', hrun, hS'⟩ := ih r.1 m r.2 d₂' b m' d₁' hS hk hg
    refine ⟨d₂'', ?_, hS'⟩
    change (dev₂ d₂ (q m) >>= fun r => (k r.1 m).run dev₂ r.2) = _
    rw [hd₂]
    exact hrun

end Match

end Program
