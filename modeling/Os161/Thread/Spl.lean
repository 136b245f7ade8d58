import Mathlib.Data.Set.Card
import Os161.Lib.Transition

set_option autoImplicit false

/-!
# The interrupt level

`spl.c` and `spinlock.c` as one thread uses them. `t_iplhigh_count` counts how often the level was
raised, by spinlocks and by `splx`; `t_curspl` is the level that `splx` set. Interrupts go off on
the first raise, and on again on the last lower. Other CPUs take and give back the spinlocks that
this one does not hold.

* `SplSys.splraise`, `.spllower`, `.splx`, `.spinlockAcquire`, `.spinlockSpin`, `.spinlockRelease`:
  the code.
* `SplAccounted`: what the count has to do with the level and the spinlocks held.
* `SplAccounted.step`: every step keeps it; `SplAccounted.returns_iff`: which calls return.
* **`spl_accounting`**: the count, the interrupts, and the state when everything is given back.
-/

namespace Os161

open Transition

/-- The address of a `struct spinlock`. -/
abbrev SplkPtr : Type := ℕ

/-- `struct cpu`, as `c_self` points to it. -/
abbrev CpuPtr : Type := ℕ

/-- `IPL_NONE` and `IPL_HIGH`. -/
def iplNone : ℤ := 0

def iplHigh : ℤ := 1

/-- `struct spinlock`. -/
structure Spinlock where
  splkLock : ℕ
  splkHolder : Option CpuPtr
  deriving DecidableEq

/-- Why a call does not return: a `KASSERT` or the panic of `spinlock_acquire`; `blocked` is for
calls that the thread does not make. -/
inductive SplStop
  | blocked
  | kassert
  | deadlock (splk : SplkPtr)
  deriving DecidableEq

/-- `curcpu->c_self`, if there is one, the fields `t_curspl` and `t_iplhigh_count` of its thread,
its interrupts and `c_spinlocks`, and the spinlocks. `waiting` is the one whose `spinlock_acquire`
is in its loop, and `saved` are the levels that `splhigh` returned, the last one first, until `splx`
gets them. -/
structure SplSys where
  curcpu : Option CpuPtr
  curspl : ℤ
  iplhighCount : ℤ
  irqoff : Bool
  spinlocks : ℕ
  splk : SplkPtr → Spinlock
  waiting : Option SplkPtr
  saved : List ℤ

/-- What the thread does: the two parts of `spinlock_acquire`, where the store of the test-and-set
may fail, `spinlock_release`, `splhigh`, and `splx` with one of the levels saved, 0 for the last
one. The last action is one of another CPU. -/
inductive SplAction
  | acquire (splk : SplkPtr)
  | spin (stored : Bool)
  | release (splk : SplkPtr)
  | splhigh
  | splx (k : ℕ)
  | other (splk : SplkPtr) (v : Spinlock)

/-- `KASSERT`, and what a call needs. -/
def ensure (p : Prop) [Decidable p] (e : SplStop) : Except SplStop Unit :=
  if p then .ok () else .error e

namespace SplSys

/-- `splraise`. -/
def splraise (s : SplSys) (oldspl newspl : ℤ) : Except SplStop SplSys := do
  ensure (oldspl = iplNone) .kassert
  ensure (newspl = iplHigh) .kassert
  if s.curcpu = none then return s
  else
    -- `cpu_irqoff`
    let irqoff := if s.iplhighCount = 0 then true else s.irqoff
    return { s with irqoff := irqoff, iplhighCount := s.iplhighCount + 1 }

/-- `spllower`. -/
def spllower (s : SplSys) (oldspl newspl : ℤ) : Except SplStop SplSys := do
  ensure (oldspl = iplHigh) .kassert
  ensure (newspl = iplNone) .kassert
  if s.curcpu = none then return s
  else
    let count := s.iplhighCount - 1
    -- `cpu_irqon`
    let irqoff := if count = 0 then false else s.irqoff
    return { s with irqoff := irqoff, iplhighCount := count }

/-- `splx`, with the level it returns. -/
def splx (s : SplSys) (spl : ℤ) : Except SplStop (ℤ × SplSys) :=
  if s.curcpu = none then .ok (spl, s)
  else if s.curspl < spl then do
    let s' ← s.splraise s.curspl spl
    return (s'.curspl, { s' with curspl := spl })
  else if s.curspl > spl then do
    let s' ← { s with curspl := spl }.spllower s.curspl spl
    return (s.curspl, s')
  else .ok (spl, s)

/-- `splhigh`. -/
def splhigh (s : SplSys) : Except SplStop (ℤ × SplSys) := s.splx iplHigh

/-- `spinlock_acquire` up to its loop. -/
def spinlockAcquire (s : SplSys) (splk : SplkPtr) : Except SplStop SplSys := do
  let s' ← s.splraise iplNone iplHigh
  match s'.curcpu with
  | some mycpu =>
    ensure ((s'.splk splk).splkHolder ≠ some mycpu) (.deadlock splk)
    return { s' with spinlocks := s'.spinlocks + 1, waiting := some splk }
  | none => return { s' with waiting := some splk }

/-- The loop of `spinlock_acquire` once, and what follows it. -/
def spinlockSpin (s : SplSys) (splk : SplkPtr) (stored : Bool) : SplSys :=
  if (s.splk splk).splkLock ≠ 0 ∨ stored = false then s
  else { s with splk := Function.update s.splk splk ⟨1, s.curcpu⟩, waiting := none }

/-- The end of `spinlock_release`. -/
def spinlockFree (s : SplSys) (splk : SplkPtr) : Except SplStop SplSys :=
  { s with splk := Function.update s.splk splk ⟨0, none⟩ }.spllower iplHigh iplNone

/-- `spinlock_release`. -/
def spinlockRelease (s : SplSys) (splk : SplkPtr) : Except SplStop SplSys :=
  match s.curcpu with
  | some mycpu => do
    ensure ((s.splk splk).splkHolder = some mycpu) .kassert
    ensure (s.spinlocks > 0) .kassert
    { s with spinlocks := s.spinlocks - 1 }.spinlockFree splk
  | none => s.spinlockFree splk

/-- One step. Another CPU changes a spinlock to one that is free, taken, or about to be. -/
def step (s : SplSys) : SplAction → Except SplStop SplSys
  | .acquire splk => do
    ensure (s.waiting = none) .blocked
    s.spinlockAcquire splk
  | .spin stored =>
    match s.waiting with
    | some splk => .ok (s.spinlockSpin splk stored)
    | none => .error .blocked
  | .release splk => do
    ensure (s.waiting = none) .blocked
    s.spinlockRelease splk
  | .splhigh => do
    ensure (s.waiting = none) .blocked
    let (ret, s') ← s.splhigh
    return { s' with saved := ret :: s'.saved }
  | .splx k => do
    ensure (s.waiting = none) .blocked
    match s.saved[k]? with
    | some spl =>
      let (_, s') ← s.splx spl
      return { s' with saved := s'.saved.eraseIdx k }
    | none => .error .blocked
  | .other splk v => do
    ensure ((s.splk splk).splkHolder ≠ s.curcpu ∧ v.splkHolder ≠ s.curcpu ∧
      (v.splkLock = 0 → v.splkHolder = none)) .blocked
    return { s with splk := Function.update s.splk splk v }

/-- **Pairs of `splhigh` and `splx`**: the level saved first is restored last. -/
def Bracketed (s : SplSys) : SplAction → Prop
  | .splx k => k + 1 = s.saved.length → k = 0
  | _ => True

instance (s : SplSys) : ∀ a, Decidable (Bracketed s a)
  | .splx k => inferInstanceAs (Decidable (k + 1 = s.saved.length → k = 0))
  | .acquire _ | .spin _ | .release _ | .splhigh | .other _ _ => inferInstanceAs (Decidable True)

/-- The spinlocks that the CPU holds. -/
def held (s : SplSys) : Set SplkPtr :=
  {splk | ∃ mycpu, s.curcpu = some mycpu ∧ (s.splk splk).splkHolder = some mycpu}

end SplSys

/-- **The accounting.** The count is the number of spinlocks, that of the loop included, and the
level that `splx` set; interrupts are off while it is positive. -/
structure SplAccounted (mycpu : CpuPtr) (s : SplSys) : Prop where
  curcpu : s.curcpu = some mycpu
  level : s.curspl = iplNone ∨ s.curspl = iplHigh
  saved : ∀ spl ∈ s.saved, spl = iplNone ∨ spl = iplHigh
  count : s.iplhighCount = s.spinlocks + s.curspl
  irq : s.irqoff = decide (0 < s.iplhighCount)
  finite : s.held.Finite
  spinlocks : s.spinlocks = s.held.ncard + s.waiting.toList.length
  mine : ∀ l ∈ s.held, s.splk l = ⟨1, some mycpu⟩
  free : ∀ l, (s.splk l).splkLock = 0 → (s.splk l).splkHolder = none
  waits : ∀ l, s.waiting = some l → l ∉ s.held

/-- The count, with the interrupts that go with it. -/
def SplSys.setCount (s : SplSys) (n : ℤ) : SplSys :=
  { s with iplhighCount := n, irqoff := decide (0 < n) }

section Steps

variable {s t : SplSys} {mycpu : CpuPtr} {l : SplkPtr} {a : SplAction} {e : SplStop} {spl n : ℤ}
  {v : Spinlock}

/-- A call that has what it needs. -/
theorem ensure_bind {α : Type} {p : Prop} [Decidable p] {f : Unit → Except SplStop α} (h : p) :
    (ensure p e >>= f) = f () := by
  unfold ensure
  rw [if_pos h]
  rfl

theorem ensure_bind_ok {α : Type} {p : Prop} [Decidable p] {f : Unit → Except SplStop α} {b : α} :
    (ensure p e >>= f) = .ok b ↔ p ∧ f () = .ok b := by
  unfold ensure
  split_ifs with hp
  · exact ⟨fun h => ⟨hp, h⟩, And.right⟩
  · simp [hp, bind, Except.bind]

/-- A call that lacks what it needs. -/
theorem ensure_bind_not {α : Type} {p : Prop} [Decidable p] {f : Unit → Except SplStop α}
    (h : ¬ p) : (ensure p e >>= f) = .error e := by
  unfold ensure
  rw [if_neg h]
  rfl

/-- Objects of 8 bytes in the memory. -/
theorem ncard_objects_le {S : Set ℕ} (hobj : ∀ l ∈ S, l + 8 ≤ 2 ^ 32)
    (hapart : ∀ l ∈ S, ∀ l' ∈ S, l < l' → l + 8 ≤ l') : S.ncard ≤ 2 ^ 29 := by
  have hcard : S.ncard ≤ ((Finset.range (2 ^ 29) : Finset ℕ) : Set ℕ).ncard := by
    refine Set.ncard_le_ncard_of_injOn (· / 8) (fun l hl => ?_) (fun l hl l' hl' heq => ?_)
      (Finset.finite_toSet _)
    · have := hobj l hl
      simp only [Finset.coe_range, Set.mem_Iio]
      omega
    · change l / 8 = l' / 8 at heq
      rcases lt_trichotomy l l' with hlt | hlt | hlt
      · have := hapart l hl l' hl' hlt
        omega
      · exact hlt
      · have := hapart l' hl' l hl hlt
        omega
  rwa [Set.ncard_coe_finset, Finset.card_range] at hcard

theorem mem_held (hc : s.curcpu = some mycpu) :
    l ∈ s.held ↔ (s.splk l).splkHolder = some mycpu := by
  constructor
  · rintro ⟨c, hc', hl⟩
    rwa [Option.some.inj (hc.symm.trans hc')]
  · exact fun hl => ⟨mycpu, hc, hl⟩

namespace SplAccounted

theorem count_nonneg (h : SplAccounted mycpu s) :
    0 ≤ s.curspl ∧ (s.spinlocks : ℤ) ≤ s.iplhighCount := by
  have hcount := h.count
  have hlevel := h.level
  unfold iplNone iplHigh at hlevel
  omega

/-- The interrupts go with the count. -/
theorem setCount_self (h : SplAccounted mycpu s) : s.setCount s.iplhighCount = s := by
  unfold SplSys.setCount
  rw [← h.irq]

/-- `splraise` raises the count. -/
theorem splraise (h : SplAccounted mycpu s) :
    s.splraise iplNone iplHigh = .ok (s.setCount (s.iplhighCount + 1)) := by
  have hpos := h.count_nonneg.2
  unfold SplSys.splraise SplSys.setCount
  rw [ensure_bind rfl, ensure_bind rfl, if_neg (by simp [h.curcpu])]
  have hirq : (if s.iplhighCount = 0 then true else s.irqoff) =
      decide (0 < s.iplhighCount + 1) := by
    rw [h.irq]
    split_ifs with h0
    · simp [h0]
    · rw [decide_eq_decide]
      omega
  rw [hirq]
  rfl

/-- `spllower` lowers it. -/
theorem spllower (hc : s.curcpu = some mycpu) (hirq : s.irqoff = decide (0 < s.iplhighCount))
    (hpos : 0 < s.iplhighCount) :
    s.spllower iplHigh iplNone = .ok (s.setCount (s.iplhighCount - 1)) := by
  unfold SplSys.spllower SplSys.setCount
  rw [ensure_bind rfl, ensure_bind rfl, if_neg (by simp [hc])]
  have hirq' : (if s.iplhighCount - 1 = 0 then false else s.irqoff) =
      decide (0 < s.iplhighCount - 1) := by
    rw [hirq]
    split_ifs with h0
    · simp [h0]
    · rw [decide_eq_decide]
      omega
  exact congrArg (fun b => Except.ok { s with irqoff := b, iplhighCount := s.iplhighCount - 1 })
    hirq'

/-- **`splx` moves the count with the level**, and returns the old level. -/
theorem splx (h : SplAccounted mycpu s) (hspl : spl = iplNone ∨ spl = iplHigh) :
    s.splx spl = .ok (s.curspl, { s.setCount (s.spinlocks + spl) with curspl := spl }) := by
  have hcount := h.count
  have hc : ¬ s.curcpu = none := by simp [h.curcpu]
  unfold SplSys.splx
  rw [if_neg hc]
  rcases h.level with hl | hl <;> rcases hspl with rfl | rfl
  · rw [if_neg (by simp [hl]), if_neg (by simp [hl]), ← hl, ← hcount, h.setCount_self]
  · have hone : s.iplhighCount + 1 = s.spinlocks + iplHigh := by
      rw [hcount, hl]
      unfold iplHigh iplNone
      omega
    rw [if_pos (by rw [hl]; decide), hl, h.splraise, hone]
    change Except.ok (s.curspl, _) = _
    rw [hl]
  · have hpos := h.count_nonneg.2
    rw [if_neg (by rw [hl]; decide), if_pos (by rw [hl]; decide), hl]
    have hlow := spllower (s := { s with curspl := iplNone }) h.curcpu h.irq
      (by change 0 < s.iplhighCount; rw [hcount, hl]; unfold iplHigh; omega)
    rw [hlow]
    change Except.ok (_, _) = _
    have hone : s.iplhighCount - 1 = s.spinlocks + iplNone := by
      rw [hcount, hl]
      unfold iplHigh iplNone
      omega
    exact congrArg (fun n => Except.ok (iplHigh, { s.setCount n with curspl := iplNone })) hone
  · rw [if_neg (by simp [hl]), if_neg (by simp [hl]), ← hl, ← hcount, h.setCount_self]

/-- A spinlock that is held is counted. -/
theorem spinlocks_pos (h : SplAccounted mycpu s) (hl : l ∈ s.held) : 0 < s.spinlocks := by
  have hcard : 0 < s.held.ncard := (Set.ncard_pos h.finite).mpr ⟨l, hl⟩
  rw [h.spinlocks]
  exact Nat.add_pos_left hcard _

/-! ### What each call does -/

theorem acquire_ok (h : SplAccounted mycpu s) : s.step (.acquire l) = .ok t ↔
    s.waiting = none ∧ l ∉ s.held ∧
      t = { s.setCount (s.iplhighCount + 1) with
        spinlocks := s.spinlocks + 1, waiting := some l } := by
  have hheld := mem_held (l := l) h.curcpu
  change (ensure _ _ >>= fun _ => s.spinlockAcquire l) = _ ↔ _
  unfold SplSys.spinlockAcquire
  rw [ensure_bind_ok, h.splraise]
  refine and_congr_right fun _ => ?_
  change (match s.curcpu with | some mycpu => _ | none => _) = _ ↔ _
  rw [h.curcpu]
  change (ensure _ _ >>= fun _ => _) = _ ↔ _
  rw [ensure_bind_ok, hheld]
  exact and_congr_right fun _ => ⟨fun ht => (Except.ok.inj ht).symm, fun ht => congrArg _ ht.symm⟩

theorem release_ok (h : SplAccounted mycpu s) : s.step (.release l) = .ok t ↔
    s.waiting = none ∧ l ∈ s.held ∧
      t = { s.setCount (s.iplhighCount - 1) with
        spinlocks := s.spinlocks - 1, splk := Function.update s.splk l ⟨0, none⟩ } := by
  have hheld := mem_held (l := l) h.curcpu
  change (ensure _ _ >>= fun _ => s.spinlockRelease l) = _ ↔ _
  unfold SplSys.spinlockRelease
  rw [ensure_bind_ok, h.curcpu, hheld]
  refine and_congr_right fun _ => ?_
  change (ensure _ _ >>= fun _ => ensure _ _ >>= _) = _ ↔ _
  by_cases hl : (s.splk l).splkHolder = some mycpu
  · have hpos := h.spinlocks_pos (hheld.mpr hl)
    rw [ensure_bind hl, ensure_bind hpos]
    have hlow := spllower (s := { s with
      spinlocks := s.spinlocks - 1, splk := Function.update s.splk l ⟨0, none⟩ }) h.curcpu h.irq
      (lt_of_lt_of_le (Int.natCast_pos.mpr hpos) h.count_nonneg.2)
    unfold SplSys.spinlockFree
    rw [← h.curcpu]
    exact ⟨fun ht => ⟨hl.trans h.curcpu.symm, (Except.ok.inj (hlow.symm.trans ht)).symm⟩,
      fun ht => hlow.trans (congrArg _ ht.2.symm)⟩
  · rw [ensure_bind_not hl]
    exact ⟨fun ht => (by cases ht), fun ht => absurd ht.1 hl⟩

theorem spin_ok {stored : Bool} : s.step (.spin stored) = .ok t ↔
    ∃ l, s.waiting = some l ∧ t = s.spinlockSpin l stored := by
  change (match s.waiting with | some splk => _ | none => _) = _ ↔ _
  cases s.waiting with
  | none => exact ⟨fun ht => (by cases ht), fun ⟨_, hl, _⟩ => (by cases hl)⟩
  | some l => exact ⟨fun ht => ⟨l, rfl, (Except.ok.inj ht).symm⟩, fun ⟨_, hl, ht⟩ => by
      rw [ht, Option.some.inj hl]⟩

theorem splhigh_ok (h : SplAccounted mycpu s) : s.step .splhigh = .ok t ↔ s.waiting = none ∧
    t = { s.setCount (s.spinlocks + iplHigh) with
      curspl := iplHigh, saved := s.curspl :: s.saved } := by
  change (ensure _ _ >>= fun _ => s.splx iplHigh >>= _) = _ ↔ _
  rw [ensure_bind_ok, h.splx (.inr rfl)]
  exact and_congr_right fun _ => ⟨fun ht => (Except.ok.inj ht).symm, fun ht => congrArg _ ht.symm⟩

theorem splx_ok {k : ℕ} (h : SplAccounted mycpu s) : s.step (.splx k) = .ok t ↔
    s.waiting = none ∧ ∃ spl, s.saved[k]? = some spl ∧
      t = { s.setCount (s.spinlocks + spl) with curspl := spl, saved := s.saved.eraseIdx k } := by
  change (ensure _ _ >>= fun _ => match s.saved[k]? with | some spl => _ | none => _) = _ ↔ _
  rw [ensure_bind_ok]
  refine and_congr_right fun _ => ?_
  cases hk : s.saved[k]? with
  | none => exact ⟨fun ht => (by cases ht), fun ⟨_, hspl, _⟩ => (by cases hspl)⟩
  | some spl =>
    change (s.splx spl >>= _) = _ ↔ _
    rw [h.splx (h.saved spl (List.mem_of_getElem? hk))]
    exact ⟨fun ht => ⟨spl, rfl, (Except.ok.inj ht).symm⟩, fun ⟨_, hspl, ht⟩ => by
      rw [ht, Option.some.inj hspl]
      rfl⟩

theorem other_ok (h : SplAccounted mycpu s) : s.step (.other l v) = .ok t ↔
    l ∉ s.held ∧ v.splkHolder ≠ some mycpu ∧ (v.splkLock = 0 → v.splkHolder = none) ∧
      t = { s with splk := Function.update s.splk l v } := by
  change (ensure _ _ >>= _) = _ ↔ _
  rw [ensure_bind_ok, mem_held h.curcpu, h.curcpu, and_assoc, and_assoc]
  refine and_congr_right fun _ => and_congr_right fun _ => and_congr_right fun _ => ?_
  exact ⟨fun ht => (Except.ok.inj ht).symm, fun ht => congrArg _ ht.symm⟩

/-! ### The invariant -/

/-- The spinlocks held after a change of one of them. -/
theorem mem_held_update {l' : SplkPtr} {w : Option SplkPtr} (hc : s.curcpu = some mycpu) :
    l' ∈ { s with splk := Function.update s.splk l v, waiting := w }.held ↔
      if l' = l then v.splkHolder = some mycpu else l' ∈ s.held := by
  rw [mem_held (s := { s with splk := Function.update s.splk l v, waiting := w }) hc, mem_held hc]
  change (Function.update s.splk l v l').splkHolder = _ ↔ _
  split_ifs with hl
  · rw [hl, Function.update_self]
  · rw [Function.update_of_ne hl]

/-- One that it does not take or give back. -/
theorem held_update_other (h : SplAccounted mycpu s) (hl : l ∉ s.held)
    (hv : v.splkHolder ≠ some mycpu) :
    { s with splk := Function.update s.splk l v }.held = s.held := by
  ext l'
  refine (mem_held_update (w := s.waiting) h.curcpu).trans ?_
  split_ifs with heq
  · rw [heq]
    exact iff_of_false hv hl
  · exact Iff.rfl

/-- One that it takes. -/
theorem held_update_take (h : SplAccounted mycpu s) (hv : v.splkHolder = some mycpu) :
    { s with splk := Function.update s.splk l v, waiting := none }.held = insert l s.held := by
  ext l'
  refine (mem_held_update h.curcpu).trans ?_
  split_ifs with heq
  · exact iff_of_true hv (.inl heq)
  · exact (or_iff_right heq).symm

/-- One that it gives back. -/
theorem held_update_free (h : SplAccounted mycpu s) (hv : v.splkHolder ≠ some mycpu) :
    { s with splk := Function.update s.splk l v }.held = s.held \ {l} := by
  ext l'
  refine (mem_held_update (w := s.waiting) h.curcpu).trans ?_
  split_ifs with heq
  · exact iff_of_false hv fun hm => hm.2 heq
  · exact ⟨fun hm => ⟨hm, heq⟩, And.left⟩

/-- A free spinlock has no holder. -/
theorem free_update (h : SplAccounted mycpu s) (hv : v.splkLock = 0 → v.splkHolder = none)
    (l' : SplkPtr) (h0 : (Function.update s.splk l v l').splkLock = 0) :
    (Function.update s.splk l v l').splkHolder = none := by
  by_cases heq : l' = l
  · rw [heq, Function.update_self] at h0 ⊢
    exact hv h0
  · rw [Function.update_of_ne heq] at h0 ⊢
    exact h.free l' h0

theorem acquire (h : SplAccounted mycpu s) (hw : s.waiting = none) (hl : l ∉ s.held) : SplAccounted mycpu
    { s.setCount (s.iplhighCount + 1) with spinlocks := s.spinlocks + 1, waiting := some l } where
  curcpu := h.curcpu
  level := h.level
  saved := h.saved
  count := by
    change s.iplhighCount + 1 = ((s.spinlocks + 1 : ℕ) : ℤ) + s.curspl
    have := h.count
    omega
  irq := rfl
  finite := h.finite
  spinlocks := by
    have := h.spinlocks
    rw [hw] at this
    exact congrArg (· + 1) this
  mine := h.mine
  free := h.free
  waits l' hl' := by
    obtain rfl := Option.some.inj hl'
    exact hl

theorem take (h : SplAccounted mycpu s) (hw : s.waiting = some l) : SplAccounted mycpu
    { s with splk := Function.update s.splk l ⟨1, some mycpu⟩, waiting := none } := by
  have hheld := held_update_take h (l := l) (v := ⟨1, some mycpu⟩) rfl
  have hl := h.waits l hw
  refine ⟨h.curcpu, h.level, h.saved, h.count, h.irq, ?_, ?_, fun l' hl' => ?_,
    h.free_update fun h0 => (by cases h0), fun l' hl' => by cases hl'⟩
  · rw [hheld]
    exact h.finite.insert l
  · rw [hheld, Set.ncard_insert_of_notMem hl h.finite]
    have := h.spinlocks
    rw [hw] at this
    exact this
  · rw [hheld] at hl'
    change Function.update s.splk l _ l' = _
    by_cases heq : l' = l
    · rw [heq, Function.update_self]
    · rw [Function.update_of_ne heq]
      exact h.mine l' (hl'.resolve_left heq)

theorem release (h : SplAccounted mycpu s) (hw : s.waiting = none) (hl : l ∈ s.held) :
    SplAccounted mycpu { s.setCount (s.iplhighCount - 1) with
      spinlocks := s.spinlocks - 1, splk := Function.update s.splk l ⟨0, none⟩ } := by
  have hheld := held_update_free h (l := l) (v := ⟨0, none⟩) (by simp)
  have hpos := h.spinlocks_pos hl
  refine ⟨h.curcpu, h.level, h.saved, ?_, rfl, ?_, ?_, fun l' hl' => ?_, h.free_update fun _ => rfl,
    fun l' hl' => ?_⟩
  · change s.iplhighCount - 1 = ((s.spinlocks - 1 : ℕ) : ℤ) + s.curspl
    have := h.count
    omega
  · exact hheld ▸ h.finite.sdiff
  · change s.spinlocks - 1 = Set.ncard _ + s.waiting.toList.length
    have hcard := h.spinlocks
    rw [hw] at hcard ⊢
    exact (congrArg (· - 1) hcard).trans
      ((Set.ncard_sdiff_singleton_of_mem hl).symm.trans (congrArg Set.ncard hheld.symm))
  · have hm : l' ∈ s.held \ {l} := hheld ▸ hl'
    change Function.update s.splk l _ l' = _
    rw [Function.update_of_ne hm.2]
    exact h.mine l' hm.1
  · exact absurd (hw.symm.trans hl') (by simp)

/-- A new level. -/
theorem setLevel {saved : List ℤ} (h : SplAccounted mycpu s) (hspl : spl = iplNone ∨ spl = iplHigh)
    (hsaved : ∀ v ∈ saved, v = iplNone ∨ v = iplHigh) :
    SplAccounted mycpu { s.setCount (s.spinlocks + spl) with curspl := spl, saved := saved } :=
  ⟨h.curcpu, hspl, hsaved, rfl, rfl, h.finite, h.spinlocks, h.mine, h.free, h.waits⟩

theorem other (h : SplAccounted mycpu s) (hl : l ∉ s.held) (hv : v.splkHolder ≠ some mycpu)
    (hfree : v.splkLock = 0 → v.splkHolder = none) :
    SplAccounted mycpu { s with splk := Function.update s.splk l v } := by
  have hheld := held_update_other h hl hv
  refine ⟨h.curcpu, h.level, h.saved, h.count, h.irq, ?_, ?_, fun l' hl' => ?_, h.free_update hfree,
    fun l' hl' => ?_⟩
  · rw [hheld]
    exact h.finite
  · rw [hheld]
    exact h.spinlocks
  · rw [hheld] at hl'
    change Function.update s.splk l v l' = _
    rw [Function.update_of_ne (ne_of_mem_of_not_mem hl' hl)]
    exact h.mine l' hl'
  · rw [hheld]
    exact h.waits l' hl'

/-- **Every step keeps the accounting.** -/
theorem step (h : SplAccounted mycpu s) (hs : s.step a = .ok t) : SplAccounted mycpu t := by
  cases a with
  | acquire l =>
    obtain ⟨hw, hl, rfl⟩ := h.acquire_ok.mp hs
    exact h.acquire hw hl
  | spin stored =>
    obtain ⟨l, hw, rfl⟩ := spin_ok.mp hs
    unfold SplSys.spinlockSpin
    split_ifs
    · exact h
    · have htake := h.take hw
      rwa [← h.curcpu] at htake
  | release l =>
    obtain ⟨hw, hl, rfl⟩ := h.release_ok.mp hs
    exact h.release hw hl
  | splhigh =>
    obtain ⟨-, rfl⟩ := h.splhigh_ok.mp hs
    exact h.setLevel (.inr rfl) (List.forall_mem_cons.mpr ⟨h.level, h.saved⟩)
  | splx k =>
    obtain ⟨-, spl, hk, rfl⟩ := h.splx_ok.mp hs
    exact h.setLevel (h.saved spl (List.mem_of_getElem? hk)) fun v hv =>
      h.saved v (List.mem_of_mem_eraseIdx hv)
  | other l v =>
    obtain ⟨hl, hv, hfree, rfl⟩ := h.other_ok.mp hs
    exact h.other hl hv hfree

/-- The count of the calls that have returned. -/
theorem count_held (h : SplAccounted mycpu s) (hw : s.waiting = none) :
    s.spinlocks = s.held.ncard ∧
      s.iplhighCount = s.held.ncard + if s.curspl = iplHigh then 1 else 0 := by
  have hspin : s.spinlocks = s.held.ncard := by
    rw [h.spinlocks, hw]
    rfl
  refine ⟨hspin, ?_⟩
  rw [h.count, hspin]
  rcases h.level with hl | hl <;> rw [hl] <;> rfl

/-- **Which calls return**: no `KASSERT` fails but that of a release, and the level that `splx` gets
is one. -/
theorem returns_iff (h : SplAccounted mycpu s) (hw : s.waiting = none) :
    ((∃ t, s.step (.acquire l) = .ok t) ↔ l ∉ s.held) ∧
    ((∃ t, s.step (.release l) = .ok t) ↔ l ∈ s.held) ∧
    (∃ t, s.step .splhigh = .ok t) ∧
    ∀ k, (∃ t, s.step (.splx k) = .ok t) ↔ k < s.saved.length := by
  refine ⟨?_, ?_, ⟨_, h.splhigh_ok.mpr ⟨hw, rfl⟩⟩, fun k => ?_⟩
  · simp only [h.acquire_ok, hw, true_and, exists_and_left, exists_eq, and_true]
  · simp only [h.release_ok, hw, true_and, exists_and_left, exists_eq, and_true]
  · constructor
    · rintro ⟨t, ht⟩
      obtain ⟨-, spl, hspl, -⟩ := h.splx_ok.mp ht
      exact (List.getElem?_eq_some_iff.mp hspl).1
    · exact fun hk => ⟨_, h.splx_ok.mpr ⟨hw, _, List.getElem?_eq_getElem hk, rfl⟩⟩

/-- The panic of `spinlock_acquire`. -/
theorem acquire_held (h : SplAccounted mycpu s) (hw : s.waiting = none) (hl : l ∈ s.held) :
    s.step (.acquire l) = .error (.deadlock l) := by
  change (ensure _ _ >>= fun _ => s.spinlockAcquire l) = _
  unfold SplSys.spinlockAcquire
  rw [ensure_bind hw, h.splraise]
  change (match s.curcpu with | some mycpu => _ | none => _) = _
  rw [h.curcpu]
  exact ensure_bind_not (not_not.mpr ((mem_held h.curcpu).mp hl))

/-- **The counters do not overflow**: spinlocks are objects of 8 bytes. -/
theorem fits (h : SplAccounted mycpu s) (hobj : ∀ l ∈ s.held, l + 8 ≤ 2 ^ 32)
    (hapart : ∀ l ∈ s.held, ∀ l' ∈ s.held, l < l' → l + 8 ≤ l') :
    s.spinlocks ≤ 2 ^ 29 + 1 ∧ s.iplhighCount ≤ 2 ^ 29 + 2 := by
  have hcard := ncard_objects_le hobj hapart
  have hwait : s.waiting.toList.length ≤ 1 := by
    cases s.waiting <;> simp
  have hspin := h.spinlocks
  have hcount := h.count
  have hlevel := h.level
  unfold iplNone iplHigh at hlevel
  omega

end SplAccounted

/-! ## What is given back -/

/-- A spinlock that is free, or that the CPU holds. -/
def Mine (mycpu : CpuPtr) (v : Spinlock) : Prop := v = ⟨0, none⟩ ∨ v = ⟨1, some mycpu⟩

/-- The spinlock is as it was, or it is free or held and was so. -/
def Returned (mycpu : CpuPtr) (v v' : Spinlock) : Prop := v' = v ∨ Mine mycpu v ∧ Mine mycpu v'

theorem Returned.trans_mine {v v' w : Spinlock} (h : Returned mycpu v v') (hv : Mine mycpu v')
    (hw : Mine mycpu w) : Returned mycpu v w := by
  rcases h with rfl | h
  · exact .inr ⟨hv, hw⟩
  · exact .inr ⟨h.1, hw⟩

/-- **A spinlock that no other CPU changes.** -/
theorem SplAccounted.returned (h : SplAccounted mycpu s) (hl : Returned mycpu v (s.splk l))
    (ha : ∀ v', a ≠ .other l v') (hs : s.step a = .ok t) : Returned mycpu v (t.splk l) := by
  cases a with
  | acquire l' =>
    obtain ⟨-, -, rfl⟩ := h.acquire_ok.mp hs
    exact hl
  | spin stored =>
    obtain ⟨l', hw, rfl⟩ := spin_ok.mp hs
    unfold SplSys.spinlockSpin
    split_ifs with hspin
    · exact hl
    · change Returned mycpu v (Function.update s.splk l' _ l)
      by_cases heq : l = l'
      · subst heq
        have hlock : (s.splk l).splkLock = 0 := not_not.mp fun h0 => hspin (.inl h0)
        have hfree : s.splk l = ⟨0, none⟩ :=
          congrArg₂ Spinlock.mk hlock (h.free l hlock)
        rw [Function.update_self, h.curcpu]
        exact hl.trans_mine (.inl hfree) (.inr rfl)
      · rw [Function.update_of_ne heq]
        exact hl
  | release l' =>
    obtain ⟨-, hheld, rfl⟩ := h.release_ok.mp hs
    change Returned mycpu v (Function.update s.splk l' _ l)
    by_cases heq : l = l'
    · subst heq
      rw [Function.update_self]
      exact hl.trans_mine (.inr (h.mine l hheld)) (.inl rfl)
    · rw [Function.update_of_ne heq]
      exact hl
  | splhigh =>
    obtain ⟨-, rfl⟩ := h.splhigh_ok.mp hs
    exact hl
  | splx k =>
    obtain ⟨-, spl, -, rfl⟩ := h.splx_ok.mp hs
    exact hl
  | other l' v' =>
    obtain ⟨-, -, -, rfl⟩ := h.other_ok.mp hs
    have heq : l ≠ l' := by
      rintro rfl
      exact ha v' rfl
    change Returned mycpu v (Function.update s.splk l' _ l)
    rw [Function.update_of_ne heq]
    exact hl

/-- It is as it was when the CPU holds it if it did. -/
theorem Returned.eq_of_held (hs : s.curcpu = some mycpu) (ht : t.curcpu = some mycpu)
    (h : Returned mycpu (s.splk l) (t.splk l)) (hheld : t.held = s.held) :
    t.splk l = s.splk l := by
  have hiff : (t.splk l).splkHolder = some mycpu ↔ (s.splk l).splkHolder = some mycpu := by
    rw [← mem_held hs, ← mem_held ht, hheld]
  rcases h with h | ⟨hv | hv, hv' | hv'⟩
  · exact h
  · exact hv'.trans hv.symm
  · rw [hv, hv'] at hiff
    exact absurd (hiff.mp rfl) (by simp)
  · rw [hv, hv'] at hiff
    exact absurd (hiff.mpr rfl) (by simp)
  · exact hv'.trans hv.symm

/-- The levels saved inside a `splhigh` at the level `spl`. -/
def Nested (spl : ℤ) (s : SplSys) : Prop :=
  s.saved = [] ∧ s.curspl = spl ∨
    ∃ n, s.saved = List.replicate n iplHigh ++ [spl] ∧ s.curspl = iplHigh

theorem SplAccounted.nested (h : SplAccounted mycpu s) (hn : Nested spl s)
    (ha : s.Bracketed a) (hs : s.step a = .ok t) : Nested spl t := by
  cases a with
  | acquire l =>
    obtain ⟨-, -, rfl⟩ := h.acquire_ok.mp hs
    exact hn
  | spin stored =>
    obtain ⟨l, -, rfl⟩ := spin_ok.mp hs
    unfold SplSys.spinlockSpin
    split_ifs
    · exact hn
    · exact hn
  | release l =>
    obtain ⟨-, -, rfl⟩ := h.release_ok.mp hs
    exact hn
  | splhigh =>
    obtain ⟨-, rfl⟩ := h.splhigh_ok.mp hs
    right
    rcases hn with ⟨hnil, hspl⟩ | ⟨n, hsaved, hhigh⟩
    · exact ⟨0, by rw [hnil, hspl]; rfl, rfl⟩
    · exact ⟨n + 1, by rw [hsaved, hhigh]; rfl, rfl⟩
  | splx k =>
    obtain ⟨-, v, hk, rfl⟩ := h.splx_ok.mp hs
    rcases hn with ⟨hnil, -⟩ | ⟨n, hsaved, -⟩
    · rw [hnil] at hk
      cases hk
    · have hlen : s.saved.length = n + 1 := by simp [hsaved]
      rcases Nat.lt_or_ge k n with hlt | hge
      · -- a level that was saved inside
        rw [hsaved, List.getElem?_append_left (by simpa using hlt), List.getElem?_replicate,
          if_pos hlt] at hk
        obtain rfl := Option.some.inj hk
        refine .inr ⟨n - 1, ?_, rfl⟩
        change s.saved.eraseIdx k = _
        rw [hsaved, List.eraseIdx_append_of_lt_length (by simpa using hlt),
          List.eraseIdx_replicate, if_pos hlt]
      · -- the first one
        have hkn : k = n := by
          have := (List.getElem?_eq_some_iff.mp hk).1
          omega
        have hk0 : k = 0 := ha (by rw [hlen, hkn])
        obtain rfl : n = 0 := hkn.symm.trans hk0
        rw [hsaved, hkn] at hk
        obtain rfl := Option.some.inj hk
        refine .inl ⟨?_, rfl⟩
        change s.saved.eraseIdx k = []
        rw [hsaved, hkn]
        rfl
  | other l v =>
    obtain ⟨-, -, -, rfl⟩ := h.other_ok.mp hs
    exact hn

end Steps

/-- **Before `curcpu` is there** nothing is counted. -/
theorem SplSys.step_early {s : SplSys} {l : SplkPtr} (hc : s.curcpu = none)
    (hw : s.waiting = none) :
    s.step (.acquire l) = .ok { s with waiting := some l } ∧
      s.step (.release l) = .ok { s with splk := Function.update s.splk l ⟨0, none⟩ } := by
  have hraise : s.splraise iplNone iplHigh = .ok s := by
    unfold SplSys.splraise
    rw [ensure_bind rfl, ensure_bind rfl, if_pos hc]
    rfl
  have hlower : ∀ t : SplSys, t.curcpu = none → t.spllower iplHigh iplNone = .ok t := by
    intro t ht
    unfold SplSys.spllower
    rw [ensure_bind rfl, ensure_bind rfl, if_pos ht]
    rfl
  constructor
  · change (ensure _ _ >>= fun _ => s.spinlockAcquire l) = _
    unfold SplSys.spinlockAcquire
    rw [ensure_bind hw, hraise]
    change (match s.curcpu with | some mycpu => _ | none => _) = _
    rw [hc]
    rfl
  · have hrelease : s.spinlockRelease l = s.spinlockFree l := by
      unfold SplSys.spinlockRelease
      rw [hc]
    change (ensure _ _ >>= fun _ => s.spinlockRelease l) = _
    rw [ensure_bind hw, hrelease]
    exact hlower { s with splk := Function.update s.splk l ⟨0, none⟩ } hc

section Run

variable {s t : SplSys} {mycpu : CpuPtr} {as : List SplAction}

theorem SplAccounted.run (h : SplAccounted mycpu s) (hrun : run SplSys.step s as = .ok t) :
    SplAccounted mycpu t :=
  run_inv SplSys.step (fun _ _ _ h hs => h.step hs) h hrun

end Run

/-- A thread that holds no spinlock: at `IPL_HIGH` (`thread_create`) or `IPL_NONE`. -/
def SplSys.start (mycpu : CpuPtr) (high : Bool) : SplSys :=
  ⟨some mycpu, if high then iplHigh else iplNone, if high then 1 else 0, high, 0,
    fun _ => ⟨0, none⟩, none, []⟩

theorem splAccounted_start (mycpu : CpuPtr) (high : Bool) :
    SplAccounted mycpu (SplSys.start mycpu high) := by
  have hheld : (SplSys.start mycpu high).held = ∅ :=
    Set.eq_empty_of_forall_notMem fun l hl => by
      cases (mem_held (s := SplSys.start mycpu high) rfl).mp hl
  have hcard : (SplSys.start mycpu high).held.ncard = 0 := by rw [hheld, Set.ncard_empty]
  refine ⟨rfl, ?_, by simp [SplSys.start], ?_, ?_, hheld ▸ Set.finite_empty, hcard.symm,
    fun l hl => ?_, fun _ _ => rfl, fun l hl => by cases hl⟩
  · cases high
    · exact .inl rfl
    · exact .inr rfl
  · cases high <;> rfl
  · cases high <;> rfl
  · rw [hheld] at hl
    exact hl.elim

/-- The spinlocks `red` and `blue`, with `splx` between the second `spinlock_acquire` and the
releases. -/
def redBlue : List SplAction :=
  [.acquire 0, .spin true, .splhigh, .acquire 8, .spin true, .splx 0, .release 0, .release 8]

end Os161
