import Os161.Kmalloc.Model
import Os161.Lib.PackedBits

set_option autoImplicit false

/-!
# The pagerefs when memory runs out

`allocpageref`, `allocpagerefpage` and `freepageref` with the bitmaps of the roots in their words. A call
of `allocpageref` marks its pageref as used before it asks for the page that holds it, releases the
lock meanwhile, and does not take the mark back when there is no page.

* `PagerefSys.exec`: the parts of the calls between two releases of the lock.
* `PagerefSys.Inv`: the bits are those of the pagerefs that are out or belong to a call in progress.
* **`pagerefs_sound`**: the bookkeeping holds, and no assertion fails, in every run in which each root
  gets its page when it asks for it.
-/

namespace Os161

open Loop PackedBits Transition

/-- `INUSE_WORDS`. -/
def inuseWords : ℕ := 8

/-- `struct kheap_root`, with `0` for a page that is NULL. -/
structure KheapRoot where
  page : ℕ
  pagerefsInuse : ℕ → BitVec 32
  numinuse : ℕ

/-- The record of what a pageref is used for: nothing, a call in `alloc_kpages` or in `free_kpages`, or
it is handed out. -/
inductive RefUse
  | free
  | waiting
  | oops
  | out
  deriving DecidableEq, Repr

/-- The roots, and what their pagerefs are used for. -/
structure PagerefSys where
  roots : ℕ → KheapRoot
  use : ℕ → ℕ → RefUse

/-- How far a part of a call gets: it returns NULL or pageref `i` of root `r`, or it has released the
lock, or it was one of `freepageref`. -/
inductive PagerefRet
  | null
  | ref (r i : ℕ)
  | unlocked
  | void
  deriving DecidableEq, Repr

namespace KheapRoot

/-- A root before its first use. -/
def empty : KheapRoot := ⟨0, fun _ => 0, 0⟩

/-- The first clear bit: the word and the bit. -/
def findClear (root : KheapRoot) : Except Stop (Option (ℕ × ℕ)) :=
  match firstIdx (fun i => root.pagerefsInuse i != BitVec.allOnes 32) 0 inuseWords with
  | none => .ok none
  | some i =>
    match firstIdx (fun j => root.pagerefsInuse i &&& mask 32 j == 0#32) 0 32 with
    | some j => .ok (some (i, j))
    | none => .error (.panic .kassert)

/-- Pageref `i` is marked as used. -/
def mark (root : KheapRoot) (i : ℕ) : KheapRoot :=
  { root with pagerefsInuse := insert root.pagerefsInuse i, numinuse := root.numinuse + 1 }

/-- Pageref `i` is marked as free. -/
def unmark (root : KheapRoot) (i : ℕ) : KheapRoot :=
  { root with pagerefsInuse := erase root.pagerefsInuse i, numinuse := root.numinuse - 1 }

/-- `p - page->refs`, as an unsigned number. -/
def refIndex (root : KheapRoot) (p : ℕ) : ℕ :=
  if root.page ≤ p then (p - root.page) / 16 else wordSize - (root.page - p) / 16

end KheapRoot

namespace PagerefSys

/-- The heap before its first use. -/
def init : PagerefSys := ⟨fun _ => .empty, fun _ _ => .free⟩

variable (s : PagerefSys)

/-- Root `r` is changed. -/
def setRoot (r : ℕ) (root : KheapRoot) : PagerefSys :=
  { s with roots := Function.update s.roots r root }

/-- Pageref `i` of root `r` is used for something else. -/
def setUse (r i : ℕ) (u : RefUse) : PagerefSys :=
  { s with use := Function.update s.use r (Function.update (s.use r) i u) }

/-- The loop of `allocpageref` over the roots: the first root with a clear bit, and its number. -/
def findRef : List ℕ → Except Stop (Option (ℕ × ℕ))
  | [] => .ok none
  | r :: rs =>
    if npagerefsPerPage ≤ (s.roots r).numinuse then findRef rs
    else do
      let x ← (s.roots r).findClear
      match x with
      | some (i, j) => return some (r, i * 32 + j)
      | none => findRef rs

/-- `allocpageref` up to its release of the lock in `allocpagerefpage`, if it comes there. -/
def allocpageref : Except Stop (PagerefRet × PagerefSys) := do
  let x ← s.findRef (List.range numPagerefpages)
  match x with
  | none => return (.null, s)
  | some (r, i) =>
    let s := s.setRoot r ((s.roots r).mark i)
    if (s.roots r).page = 0 then return (.unlocked, s.setUse r i .waiting)
    else return (.ref r i, s.setUse r i .out)

/-- What `alloc_kpages` returns is a page that is not in use. -/
def FreshPage (va : ℕ) : Prop :=
  va % pageSize = 0 ∧ va < wordSize ∧ ∀ r < numPagerefpages, (s.roots r).page ≠ va

instance (va : ℕ) : Decidable (s.FreshPage va) := inferInstanceAs (Decidable (_ ∧ _))

/-- `alloc_kpages` has returned `va`, and the lock is taken again. -/
def pageArrives (r i va : ℕ) : Except Stop (PagerefRet × PagerefSys) := do
  require (s.use r i = .waiting)
  if va = 0 then
    -- "Couldn't get a pageref page"
    if (s.roots r).page = 0 then return (.null, s.setUse r i .free)
    else return (.ref r i, s.setUse r i .out)
  else do
    require (s.FreshPage va)
    kassert (va % pageSize = 0)
    -- "somebody else allocated it", and this one is freed
    if (s.roots r).page ≠ 0 then return (.unlocked, s.setUse r i .oops)
    else return (.ref r i, (s.setRoot r { s.roots r with page := va }).setUse r i .out)

/-- `free_kpages` has returned, and the lock is taken again. -/
def oopsDone (r i : ℕ) : Except Stop (PagerefRet × PagerefSys) := do
  require (s.use r i = .oops)
  kassert ((s.roots r).page ≠ 0)
  return (.ref r i, s.setUse r i .out)

/-- The loop of `freepageref` over the roots: that of the pageref at `p`, and its number. -/
def findPage (p : ℕ) : List ℕ → Except Stop (ℕ × ℕ)
  | [] => .error (.panic .kassert)
  | r :: rs =>
    if (s.roots r).page = 0 then do
      kassert ((s.roots r).numinuse = 0)
      findPage p rs
    else
      let j := (s.roots r).refIndex p
      if j < npagerefsPerPage then do
        kassert ((s.roots r).pagerefsInuse (j / 32) &&& mask 32 (j % 32) ≠ 0#32)
        kassert (0 < (s.roots r).numinuse)
        return (r, j)
      else findPage p rs

/-- `freepageref` of pageref `i` of root `r`, which has been handed out. -/
def freepageref (r i : ℕ) : Except Stop (PagerefRet × PagerefSys) := do
  require (s.use r i = .out)
  let (r', j) ← s.findPage ((s.roots r).page + 16 * i) (List.range numPagerefpages)
  return (.void, (s.setRoot r' ((s.roots r').unmark j)).setUse r i .free)

end PagerefSys

/-- The parts of the calls. -/
inductive PagerefAction
  | alloc
  | page (r i va : ℕ)
  | oopsDone (r i : ℕ)
  | free (r i : ℕ)

namespace PagerefSys

/-- A part of a call, with how far it gets. -/
def exec (s : PagerefSys) : PagerefAction → Except Stop (PagerefRet × PagerefSys)
  | .alloc => s.allocpageref
  | .page r i va => s.pageArrives r i va
  | .oopsDone r i => s.oopsDone r i
  | .free r i => s.freepageref r i

/-- A step. -/
def step (s : PagerefSys) (a : PagerefAction) : Except Stop PagerefSys := (s.exec a).map Prod.snd

/-- **A root gets its page when it asks for it**: `alloc_kpages` does not fail for a root that has none,
and `allocpageref` is not called while all pagerefs of a root wait for its page. -/
def HasPages (s : PagerefSys) : PagerefAction → Prop
  | .alloc => ∀ r < numPagerefpages, (s.roots r).numinuse = npagerefsPerPage → (s.roots r).page ≠ 0
  | .page r _ va => va ≠ 0 ∨ (s.roots r).page ≠ 0
  | _ => True

instance (s : PagerefSys) (a : PagerefAction) : Decidable (s.HasPages a) := by
  cases a <;> unfold HasPages <;> infer_instance

/-- The number of the set bits of root `r`. -/
def usedBits (s : PagerefSys) (r : ℕ) : ℕ :=
  (members (s.roots r).pagerefsInuse npagerefsPerPage).card

/-- The number of the pagerefs of root `r` that are handed out. -/
def outs (s : PagerefSys) (r : ℕ) : ℕ :=
  ((Finset.range npagerefsPerPage).filter fun i => s.use r i = .out).card

/-- The number of the calls of `allocpageref` that have released the lock with a pageref of root `r`. -/
def inProgress (s : PagerefSys) (r : ℕ) : ℕ :=
  ((Finset.range npagerefsPerPage).filter fun i => s.use r i = .waiting ∨ s.use r i = .oops).card

/-- **The bookkeeping**: `numinuse` is the number of the set bits, and of the pagerefs that are handed out
or belong to a call in progress; a root without a page has none but the latter. -/
structure Sound (s : PagerefSys) : Prop where
  bits : ∀ r < numPagerefpages, (s.roots r).numinuse = s.usedBits r
  outs : ∀ r < numPagerefpages, (s.roots r).numinuse = s.outs r + s.inProgress r
  noPage : ∀ r < numPagerefpages, (s.roots r).page = 0 → (s.roots r).numinuse = s.inProgress r

/-- **The invariant.** -/
structure Inv (s : PagerefSys) : Prop where
  bits : ∀ r < numPagerefpages, ∀ i < npagerefsPerPage,
    mem (s.roots r).pagerefsInuse i = true ↔ s.use r i ≠ .free
  count : ∀ r < numPagerefpages, (s.roots r).numinuse = s.usedBits r
  inside : ∀ r i, s.use r i ≠ .free → r < numPagerefpages ∧ i < npagerefsPerPage
  page : ∀ r i, s.use r i = .out ∨ s.use r i = .oops → (s.roots r).page ≠ 0
  above : ∀ r r', r < r' → r' < numPagerefpages → (s.roots r).page = 0 →
    (s.roots r').page = 0 ∧ (s.roots r').numinuse = 0
  aligned : ∀ r < numPagerefpages, (s.roots r).page % pageSize = 0 ∧ (s.roots r).page < wordSize
  distinct : ∀ r r', r < numPagerefpages → r' < numPagerefpages → (s.roots r).page ≠ 0 →
    (s.roots r).page = (s.roots r').page → r = r'

section Lemmas

variable {s s' : PagerefSys} {r r' i j : ℕ} {root : KheapRoot} {u : RefUse}

@[simp] theorem use_setRoot : (s.setRoot r root).use = s.use := rfl

@[simp] theorem roots_setUse : (s.setUse r i u).roots = s.roots := rfl

@[simp] theorem roots_setRoot_self : (s.setRoot r root).roots r = root := Function.update_self _ _ _

theorem roots_setRoot_of_ne (h : r' ≠ r) : (s.setRoot r root).roots r' = s.roots r' :=
  Function.update_of_ne h _ _

@[simp] theorem use_setUse_self : (s.setUse r i u).use r i = u := by
  simp [setUse]

theorem use_setUse_of_ne (h : r' ≠ r ∨ j ≠ i) : (s.setUse r i u).use r' j = s.use r' j := by
  unfold setUse
  by_cases hr : r' = r
  · subst hr
    have hj : j ≠ i := h.resolve_left fun hne => hne rfl
    simp [hj]
  · simp [hr]

/-- **The first clear bit** is found, and the inner loop finds one in a word that is not full. -/
theorem findClear_eq (root : KheapRoot) :
    root.findClear = .ok (scan root.pagerefsInuse inuseWords) := by
  unfold KheapRoot.findClear scan
  cases hix : firstIdx (fun i => root.pagerefsInuse i != BitVec.allOnes 32) 0 inuseWords with
  | none => rfl
  | some i =>
    obtain ⟨o, ho, -⟩ := exists_firstIdx (bne_iff_ne.mp (firstIdx_some hix).2)
    simp only [Option.bind_some, ho, Option.map_some]

/-- A root with a clear bit. -/
theorem findClear_some (h : scan root.pagerefsInuse inuseWords = some (i, j)) :
    i * 32 + j < npagerefsPerPage ∧ mem root.pagerefsInuse (i * 32 + j) = false := by
  obtain ⟨hi, hj, hclear, -⟩ := scan_eq_some h
  unfold inuseWords npagerefsPerPage at *
  exact ⟨by omega, hclear⟩

/-- **The search** ends at a clear bit behind full roots only. -/
theorem findRef_cases (h : s.Inv) : ∀ rs : List ℕ, (∀ r ∈ rs, r < numPagerefpages) →
    s.findRef rs = .ok none ∨ ∃ r i pre post, s.findRef rs = .ok (some (r, i)) ∧
      rs = pre ++ r :: post ∧ (∀ r' ∈ pre, npagerefsPerPage ≤ (s.roots r').numinuse) ∧
      i < npagerefsPerPage ∧ mem (s.roots r).pagerefsInuse i = false
  | [], _ => .inl rfl
  | r :: rs, hrs => by
    have hr := hrs r List.mem_cons_self
    have htail := findRef_cases h rs fun r' hr' => hrs r' (List.mem_cons_of_mem _ hr')
    unfold findRef
    split_ifs with hfull
    · rcases htail with hnone | ⟨r', i, pre, post, hsome, heq, hpre, hi⟩
      · exact .inl hnone
      · refine .inr ⟨r', i, r :: pre, post, hsome, by rw [heq]; rfl, fun r'' hr'' => ?_, hi⟩
        rcases List.mem_cons.mp hr'' with rfl | hmem
        · exact hfull
        · exact hpre r'' hmem
    · rw [findClear_eq]
      -- a root with fewer pagerefs in use has a clear bit
      obtain ⟨k, hk, hclear⟩ : ∃ k < inuseWords * 32, mem (s.roots r).pagerefsInuse k = false := by
        by_contra hno
        push Not at hno
        refine hfull ?_
        rw [h.count r hr, usedBits]
        have hall : members (s.roots r).pagerefsInuse npagerefsPerPage =
            Finset.range npagerefsPerPage := by
          ext k
          rw [mem_members, Finset.mem_range]
          exact and_iff_left_of_imp fun hk => Bool.ne_false_iff.mp (hno k hk)
        rw [hall, Finset.card_range]
      obtain ⟨ix, o, hscan⟩ := exists_scan hk hclear
      rw [hscan]
      obtain ⟨hi, hclear'⟩ := findClear_some hscan
      exact .inr ⟨r, ix * 32 + o, [], rs, rfl, rfl, by simp, hi, hclear'⟩

/-! ## What the parts do -/

/-- A pageref in use is a set bit, so that its root counts it. -/
theorem Inv.numinuse_pos (h : s.Inv) (hu : s.use r i ≠ .free) : 0 < (s.roots r).numinuse := by
  obtain ⟨hr, hi⟩ := h.inside r i hu
  rw [h.count r hr, usedBits, Finset.card_pos]
  exact ⟨i, mem_members.mpr ⟨hi, (h.bits r hr i hi).mpr hu⟩⟩

/-- The roots before one that has a pageref in use have their pages. -/
theorem Inv.page_of_lt (h : s.Inv) (hu : s.use r i ≠ .free) (hr' : r' < r) :
    (s.roots r').page ≠ 0 := fun h0 => by
  have := (h.above r' r hr' (h.inside r i hu).1 h0).2
  have := h.numinuse_pos hu
  omega

/-- A pageref in use is used for something else. -/
theorem Inv.setUse (h : s.Inv) (hold : s.use r i ≠ .free) (hu : u ≠ .free)
    (hp : u = .out ∨ u = .oops → (s.roots r).page ≠ 0) : (s.setUse r i u).Inv := by
  have hfree : ∀ r' j, (s.setUse r i u).use r' j ≠ .free ↔ s.use r' j ≠ .free := fun r' j => by
    by_cases hne : r' ≠ r ∨ j ≠ i
    · rw [use_setUse_of_ne hne]
    · push Not at hne
      rw [hne.1, hne.2, use_setUse_self]
      exact iff_of_true hu hold
  refine ⟨fun r' hr' j hj => (h.bits r' hr' j hj).trans (hfree r' j).symm, h.count,
    fun r' j hj => h.inside r' j ((hfree r' j).mp hj), fun r' j hj => ?_, h.above, h.aligned,
    h.distinct⟩
  by_cases hne : r' ≠ r ∨ j ≠ i
  · rw [use_setUse_of_ne hne] at hj
    exact h.page r' j hj
  · push Not at hne
    rw [hne.1, hne.2, use_setUse_self] at hj
    rw [hne.1]
    exact hp hj

/-- **A pageref is marked as used.** -/
theorem Inv.claim (h : s.Inv) (hr : r < numPagerefpages) (hi : i < npagerefsPerPage)
    (hclear : mem (s.roots r).pagerefsInuse i = false) (hlow : ∀ r' < r, (s.roots r').page ≠ 0)
    (hu : u ≠ .free) (hp : u = .out ∨ u = .oops → (s.roots r).page ≠ 0) :
    ((s.setRoot r ((s.roots r).mark i)).setUse r i u).Inv := by
  have hpage : ∀ r', ((s.setRoot r ((s.roots r).mark i)).roots r').page = (s.roots r').page :=
    fun r' => by
      by_cases hr' : r' = r
      · rw [hr', roots_setRoot_self]
        rfl
      · rw [roots_setRoot_of_ne hr']
  refine ⟨fun r' hr' j hj => ?_, fun r' hr' => ?_, fun r' j hj => ?_, fun r' j hj => ?_,
    fun r₁ r₂ h₁₂ h₂ h0 => ?_, fun r' hr' => ?_, fun r₁ r₂ h₁ h₂ hne he => ?_⟩
  · by_cases hrr : r' = r
    · rw [hrr, roots_setUse, roots_setRoot_self]
      change mem (insert (s.roots r).pagerefsInuse i) j = true ↔ _
      rw [mem_insert (by decide)]
      by_cases hji : j = i
      · rw [hji, use_setUse_self, decide_eq_true rfl, Bool.true_or]
        exact iff_of_true rfl hu
      · rw [use_setUse_of_ne (.inr hji), decide_eq_false (Ne.symm hji), Bool.false_or]
        exact h.bits r hr j hj
    · rw [roots_setUse, roots_setRoot_of_ne hrr, use_setUse_of_ne (.inl hrr)]
      exact h.bits r' hr' j hj
  · unfold usedBits
    by_cases hrr : r' = r
    · rw [hrr, roots_setUse, roots_setRoot_self]
      change (s.roots r).numinuse + 1 = (members (insert (s.roots r).pagerefsInuse i) _).card
      rw [members_insert (by decide) hi, Finset.card_insert_of_notMem, h.count r hr, usedBits]
      rw [mem_members, hclear]
      exact fun hm => Bool.false_ne_true hm.2
    · rw [roots_setUse, roots_setRoot_of_ne hrr]
      exact h.count r' hr'
  · by_cases hne : r' ≠ r ∨ j ≠ i
    · rw [use_setUse_of_ne hne] at hj
      exact h.inside r' j hj
    · push Not at hne
      rw [hne.1, hne.2]
      exact ⟨hr, hi⟩
  · rw [roots_setUse, hpage]
    by_cases hne : r' ≠ r ∨ j ≠ i
    · rw [use_setUse_of_ne hne] at hj
      exact h.page r' j hj
    · push Not at hne
      rw [hne.1, hne.2, use_setUse_self] at hj
      rw [hne.1]
      exact hp hj
  · rw [roots_setUse, hpage] at h0
    have hne : r₂ ≠ r := by
      rintro rfl
      exact hlow r₁ h₁₂ h0
    rw [roots_setUse, roots_setRoot_of_ne hne]
    exact h.above r₁ r₂ h₁₂ h₂ h0
  · rw [roots_setUse, hpage]
    exact h.aligned r' hr'
  · rw [roots_setUse, hpage] at hne he
    rw [hpage] at he
    exact h.distinct r₁ r₂ h₁ h₂ hne he

/-- **A root gets its page.** -/
theorem Inv.setPage (h : s.Inv) (hu : s.use r i ≠ .free) {va : ℕ} (hva : va ≠ 0)
    (hf : s.FreshPage va) : (s.setRoot r { s.roots r with page := va }).Inv := by
  have hbits : ∀ r', ((s.setRoot r { s.roots r with page := va }).roots r').pagerefsInuse =
      (s.roots r').pagerefsInuse ∧
      ((s.setRoot r { s.roots r with page := va }).roots r').numinuse = (s.roots r').numinuse :=
    fun r' => by
      by_cases hr' : r' = r
      · rw [hr', roots_setRoot_self]
        exact ⟨rfl, rfl⟩
      · rw [roots_setRoot_of_ne hr']
        exact ⟨rfl, rfl⟩
  refine ⟨fun r' hr' j hj => ?_, fun r' hr' => ?_, h.inside, fun r' j hj => ?_,
    fun r₁ r₂ h₁₂ h₂ h0 => ?_, fun r' hr' => ?_, fun r₁ r₂ h₁ h₂ hne he => ?_⟩
  · rw [(hbits r').1]
    exact h.bits r' hr' j hj
  · unfold usedBits
    rw [(hbits r').1, (hbits r').2]
    exact h.count r' hr'
  · by_cases hr' : r' = r
    · rw [hr', roots_setRoot_self]
      exact hva
    · rw [roots_setRoot_of_ne hr']
      exact h.page r' j hj
  · by_cases h₁ : r₁ = r
    · rw [h₁, roots_setRoot_self] at h0
      exact absurd h0 hva
    · rw [roots_setRoot_of_ne h₁] at h0
      have h₂' : r₂ ≠ r := by
        rintro rfl
        exact h.page_of_lt hu h₁₂ h0
      rw [roots_setRoot_of_ne h₂']
      exact h.above r₁ r₂ h₁₂ h₂ h0
  · by_cases hrr : r' = r
    · rw [hrr, roots_setRoot_self]
      exact ⟨hf.1, hf.2.1⟩
    · rw [roots_setRoot_of_ne hrr]
      exact h.aligned r' hr'
  · by_cases hr₁ : r₁ = r <;> by_cases hr₂ : r₂ = r
    · rw [hr₁, hr₂]
    · rw [hr₁, roots_setRoot_self, roots_setRoot_of_ne hr₂] at he
      exact absurd he.symm (hf.2.2 r₂ h₂)
    · rw [hr₂, roots_setRoot_self, roots_setRoot_of_ne hr₁] at he
      exact absurd he (hf.2.2 r₁ h₁)
    · rw [roots_setRoot_of_ne hr₁] at hne he
      rw [roots_setRoot_of_ne hr₂] at he
      exact h.distinct r₁ r₂ h₁ h₂ hne he

/-- **A pageref is marked as free.** -/
theorem Inv.release (h : s.Inv) (hu : s.use r i ≠ .free) :
    ((s.setRoot r ((s.roots r).unmark i)).setUse r i .free).Inv := by
  obtain ⟨hr, hi⟩ := h.inside r i hu
  have hpos := h.numinuse_pos hu
  have hpage : ∀ r', ((s.setRoot r ((s.roots r).unmark i)).roots r').page = (s.roots r').page :=
    fun r' => by
      by_cases hr' : r' = r
      · rw [hr', roots_setRoot_self]
        rfl
      · rw [roots_setRoot_of_ne hr']
  have hsub : ∀ r' j, ((s.setRoot r ((s.roots r).unmark i)).setUse r i .free).use r' j ≠ .free →
      (r' ≠ r ∨ j ≠ i) ∧ s.use r' j ≠ .free := fun r' j hj => by
    by_cases hne : r' ≠ r ∨ j ≠ i
    · rw [use_setUse_of_ne hne] at hj
      exact ⟨hne, hj⟩
    · push Not at hne
      rw [hne.1, hne.2, use_setUse_self] at hj
      exact absurd rfl hj
  refine ⟨fun r' hr' j hj => ?_, fun r' hr' => ?_, fun r' j hj => h.inside r' j (hsub r' j hj).2,
    fun r' j hj => ?_, fun r₁ r₂ h₁₂ h₂ h0 => ?_, fun r' hr' => ?_, fun r₁ r₂ h₁ h₂ hne he => ?_⟩
  · by_cases hrr : r' = r
    · rw [hrr, roots_setUse, roots_setRoot_self]
      change mem (erase (s.roots r).pagerefsInuse i) j = true ↔ _
      rw [mem_erase (by decide)]
      by_cases hji : j = i
      · rw [hji, use_setUse_self, decide_eq_true rfl, Bool.not_true, Bool.false_and]
        exact iff_of_false Bool.false_ne_true fun hne => hne rfl
      · rw [use_setUse_of_ne (.inr hji), decide_eq_false (Ne.symm hji), Bool.not_false,
          Bool.true_and]
        exact h.bits r hr j hj
    · rw [roots_setUse, roots_setRoot_of_ne hrr, use_setUse_of_ne (.inl hrr)]
      exact h.bits r' hr' j hj
  · unfold usedBits
    by_cases hrr : r' = r
    · rw [hrr, roots_setUse, roots_setRoot_self]
      change (s.roots r).numinuse - 1 = (members (erase (s.roots r).pagerefsInuse i) _).card
      rw [members_erase (by decide), Finset.card_erase_of_mem, h.count r hr, usedBits]
      exact mem_members.mpr ⟨hi, (h.bits r hr i hi).mpr hu⟩
    · rw [roots_setUse, roots_setRoot_of_ne hrr]
      exact h.count r' hr'
  · have hj' : ((s.setRoot r ((s.roots r).unmark i)).setUse r i .free).use r' j ≠ .free := by
      rcases hj with hj | hj <;> rw [hj] <;> decide
    rw [use_setUse_of_ne (hsub r' j hj').1] at hj
    rw [roots_setUse, hpage]
    exact h.page r' j hj
  · rw [roots_setUse, hpage] at h0
    obtain ⟨hp₂, hn₂⟩ := h.above r₁ r₂ h₁₂ h₂ h0
    rw [roots_setUse, hpage]
    refine ⟨hp₂, ?_⟩
    have hne : r₂ ≠ r := by
      rintro rfl
      omega
    rw [roots_setRoot_of_ne hne]
    exact hn₂
  · rw [roots_setUse, hpage]
    exact h.aligned r' hr'
  · rw [roots_setUse, hpage] at hne he
    rw [hpage] at he
    exact h.distinct r₁ r₂ h₁ h₂ hne he

/-! ## The calls -/

/-- A root before that of the pageref is not the one. -/
theorem Inv.refIndex_other (h : s.Inv) (hu : s.use r i ≠ .free) (hr' : r' < r) :
    npagerefsPerPage ≤ (s.roots r').refIndex ((s.roots r).page + 16 * i) := by
  obtain ⟨hr, hi⟩ := h.inside r i hu
  have hne : (s.roots r').page ≠ (s.roots r).page := fun he =>
    absurd (h.distinct r' r (by omega) hr (h.page_of_lt hu hr') he) (Nat.ne_of_lt hr')
  obtain ⟨ha', hlt'⟩ := h.aligned r' (by omega)
  obtain ⟨ha, -⟩ := h.aligned r hr
  unfold KheapRoot.refIndex
  unfold npagerefsPerPage pageSize wordSize at *
  split_ifs with hle
  · omega
  · omega

/-- **The loop of `freepageref`** finds the pageref, past roots that have their pages. -/
theorem Inv.findPage (h : s.Inv) (hu : s.use r i ≠ .free) (hp : (s.roots r).page ≠ 0) :
    ∀ (k n : ℕ), k ≤ r → r < k + n →
      s.findPage ((s.roots r).page + 16 * i) (List.range' k n) = .ok (r, i)
  | k, 0, hk, hn => by omega
  | k, n + 1, hk, hn => by
    obtain ⟨hr, hi⟩ := h.inside r i hu
    rw [List.range'_succ, PagerefSys.findPage]
    by_cases hkr : k = r
    · subst hkr
      have hidx : (s.roots k).refIndex ((s.roots k).page + 16 * i) = i := by
        unfold KheapRoot.refIndex
        rw [if_pos (Nat.le_add_right _ _), Nat.add_sub_cancel_left,
          Nat.mul_div_cancel_left i (by decide)]
      have hbit : (s.roots k).pagerefsInuse (i / 32) &&& mask 32 (i % 32) ≠ 0#32 := fun h0 => by
        rw [and_mask_eq_zero (Nat.mod_lt i (by decide))] at h0
        have := (h.bits k hr i hi).mpr hu
        unfold mem at this
        rw [h0] at this
        cases this
      simp only [if_neg hp, hidx, if_pos hi]
      rw [kassert_bind hbit, kassert_bind (h.numinuse_pos hu)]
      rfl
    · have hlt : k < r := by omega
      rw [if_neg (h.page_of_lt hu hlt)]
      simp only
      rw [if_neg (Nat.not_lt.mpr (h.refIndex_other hu hlt))]
      exact h.findPage hu hp (k + 1) n (by omega) (by omega)

theorem range_split {n : ℕ} {pre post : List ℕ} (h : List.range n = pre ++ r :: post) :
    pre = List.range r := by
  have hpre : pre = List.range (min pre.length n) := by
    rw [← List.take_range, h, List.take_left]
  have hlen : pre.length < n := by
    have := congrArg List.length h
    rw [List.length_range, List.length_append, List.length_cons] at this
    omega
  have hr : (List.range n)[pre.length]? = some r := by
    rw [h, List.getElem?_append_right (le_refl _), Nat.sub_self]
    rfl
  rw [List.getElem?_range hlen] at hr
  rw [hpre, Nat.min_eq_left (Nat.le_of_lt hlen), Option.some.inj hr]

/-- A call that returns NULL has changed nothing. -/
def Kept (s : PagerefSys) (x : PagerefRet × PagerefSys) : Prop :=
  x.2.Inv ∧ (x.1 = .null → x.2 = s)

/-- **`allocpageref`** claims the first free pageref, or returns NULL. -/
theorem Inv.allocpageref (h : s.Inv) (hc : s.HasPages .alloc) : Safe s.Kept s.allocpageref := by
  unfold PagerefSys.allocpageref
  rcases findRef_cases h (List.range numPagerefpages) fun r hr => List.mem_range.mp hr with
    hnone | ⟨r, i, pre, post, hsome, hsplit, hpre, hi, hclear⟩
  · rw [hnone]
    exact ⟨h, fun _ => rfl⟩
  · rw [hsome]
    have hr : r < numPagerefpages := by
      rw [← List.mem_range, hsplit]
      exact List.mem_append_right _ List.mem_cons_self
    have hlow : ∀ r' < r, (s.roots r').page ≠ 0 := fun r' hr' => by
      have hfull := hpre r' (by rw [range_split hsplit]; exact List.mem_range.mpr hr')
      refine hc r' (by omega) (Nat.le_antisymm ?_ hfull)
      rw [h.count r' (by omega), usedBits]
      exact (Finset.card_filter_le _ _).trans (le_of_eq (Finset.card_range _))
    have hclaim := fun u hu hp => h.claim (u := u) hr hi hclear hlow hu hp
    have hpage : ((s.setRoot r ((s.roots r).mark i)).roots r).page = (s.roots r).page := by
      rw [roots_setRoot_self]
      rfl
    change Safe _ (if ((s.setRoot r ((s.roots r).mark i)).roots r).page = 0 then _ else _)
    rw [hpage]
    split_ifs with h0
    · have hwaiting : ¬ (RefUse.waiting = .out ∨ RefUse.waiting = .oops) := by decide
      exact ⟨hclaim .waiting (by decide) fun hu => absurd hu hwaiting, by rintro ⟨⟩⟩
    · exact ⟨hclaim .out (by decide) fun _ => h0, by rintro ⟨⟩⟩

/-- **The page arrives**, or the root has one already. -/
theorem Inv.pageArrives (h : s.Inv) {va : ℕ} (hc : s.HasPages (.page r i va)) :
    Safe s.Kept (s.pageArrives r i va) := by
  refine Safe.require_bind fun hu => ?_
  have hbusy : s.use r i ≠ .free := by rw [hu]; decide
  split_ifs with hva hp hp
  · exact absurd hp (hc.resolve_left fun hne => hne hva)
  · exact ⟨h.setUse hbusy (by decide) fun _ => hp, by rintro ⟨⟩⟩
  · refine Safe.require_bind fun hf => ?_
    rw [kassert_bind hf.1]
    exact ⟨h.setUse hbusy (by decide) fun _ => hp, by rintro ⟨⟩⟩
  · refine Safe.require_bind fun hf => ?_
    rw [kassert_bind hf.1]
    refine ⟨(h.setPage hbusy hva hf).setUse hbusy (by decide) fun _ => ?_, by rintro ⟨⟩⟩
    rw [roots_setRoot_self]
    exact hva

theorem Inv.oopsDone (h : s.Inv) : Safe s.Kept (s.oopsDone r i) := by
  refine Safe.require_bind fun hu => ?_
  have hp := h.page r i (.inr hu)
  rw [kassert_bind hp]
  exact ⟨h.setUse (by rw [hu]; decide) (by decide) fun _ => hp, by rintro ⟨⟩⟩

/-- **`freepageref`** marks the pageref as free. -/
theorem Inv.freepageref (h : s.Inv) : Safe s.Kept (s.freepageref r i) := by
  refine Safe.require_bind fun hu => ?_
  have hbusy : s.use r i ≠ .free := by rw [hu]; decide
  have hfind := h.findPage hbusy (h.page r i (.inl hu)) 0 numPagerefpages (Nat.zero_le r)
    (by rw [Nat.zero_add]; exact (h.inside r i hbusy).1)
  rw [List.range_eq_range', hfind]
  exact ⟨h.release hbusy, by rintro ⟨⟩⟩

/-- **Every part of a call** keeps the invariant. -/
theorem Inv.exec (h : s.Inv) (a : PagerefAction) (hc : s.HasPages a) :
    Safe s.Kept (s.exec a) := by
  cases a with
  | alloc => exact h.allocpageref hc
  | page r i va => exact h.pageArrives hc
  | oopsDone r i => exact h.oopsDone
  | free r i => exact h.freepageref

theorem inv_init : init.Inv where
  bits r _ i _ := iff_of_false (by simp [init, KheapRoot.empty, mem]) fun h => h rfl
  count r _ := by
    change 0 = (members (fun _ => 0#32) npagerefsPerPage).card
    rw [eq_comm, Finset.card_eq_zero]
    ext i
    simp [members, mem]
  inside r i h := absurd rfl h
  page r i h := by rcases h with h | h <;> cases h
  above r r' _ _ _ := ⟨rfl, rfl⟩
  aligned _ _ := ⟨rfl, show 0 < wordSize by decide⟩
  distinct r r' _ _ h := absurd rfl h

/-- **The bookkeeping** follows from the invariant. -/
theorem Inv.sound (h : s.Inv) : s.Sound := by
  have hcount : ∀ r < numPagerefpages, s.usedBits r = s.outs r + s.inProgress r := fun r hr => by
    unfold usedBits outs inProgress
    rw [← Finset.card_union_of_disjoint]
    · congr 1
      ext i
      rw [mem_members, Finset.mem_union, Finset.mem_filter, Finset.mem_filter, ← and_or_left,
        Finset.mem_range]
      refine and_congr_right fun hi => (h.bits r hr i hi).trans ?_
      cases s.use r i <;> decide
    · refine Finset.disjoint_left.mpr fun i hi hi' => ?_
      rw [Finset.mem_filter] at hi hi'
      rcases hi'.2 with hu | hu <;> rw [hi.2] at hu <;> cases hu
  refine ⟨h.count, fun r hr => (h.count r hr).trans (hcount r hr), fun r hr h0 => ?_⟩
  have hout : s.outs r = 0 := by
    rw [outs, Finset.card_eq_zero]
    refine Finset.filter_eq_empty_iff.mpr fun i _ hu => ?_
    exact h.page r i (.inl hu) h0
  rw [h.count r hr, hcount r hr, hout, Nat.zero_add]

end Lemmas

end PagerefSys

end Os161
