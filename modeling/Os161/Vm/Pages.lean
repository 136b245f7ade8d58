import Os161.Vm.Fault

set_option autoImplicit false

/-!
# The slots of the pages

Which pages have a slot of the swap file, at every point of a fault, in address spaces whose regions
share no page.

* `SwapSpace.Holds`: the page has a slot.
* `Pc.transit`: the page whose slot and whose entry disagree for a while.
* `SlotsOk`, `PlacedAt`: the invariant of one address space; `Placed`: the one of the machine.
* **`placedAt_step`**: every step keeps the invariant of an address space whose own regions are defined
  apart; **`placed_run`**: the one of the machine, where all are.
-/

namespace Os161

open Transition Addrspace

/-- The page has a slot of the swap file. -/
def SwapSpace.Holds (sw : SwapSpace) (as : AsId) (v : ℕ) : Prop :=
  ∃ i < swapSize, sw.entry i = ⟨some as, v⟩

/-- No two slots hold the same page. -/
def SwapSpace.Apart (sw : SwapSpace) : Prop :=
  ∀ i < swapSize, ∀ j < swapSize, (sw.entry i).as ≠ none → sw.entry i = sw.entry j → i = j

/-- No two slots hold the same page of the address space. -/
def SwapSpace.ApartFor (sw : SwapSpace) (as : AsId) : Prop :=
  ∀ i < swapSize, ∀ j < swapSize, ∀ v, sw.entry i = ⟨some as, v⟩ → sw.entry j = ⟨some as, v⟩ → i = j

/-- The page that has a slot although its entry does not say so: the victim until `pt_update`, and the
page of the fault until `swap_in` has found it. -/
def Pc.transit (page : ℕ) : Pc → Option ℕ
  | .swapOutCopy v _ _ _ _ _ | .swapOutWrite v _ _ _ _ | .update v _ _ => some v
  | .swapInFind _ => some page
  | _ => none

/-- The entry of the page has not been changed yet. -/
def Pc.before : Pc → Bool
  | .alloc | .evict | .swapOutFind _ _ _ | .swapOutCopy _ _ _ _ _ _ | .swapOutWrite _ _ _ _ _
  | .update _ _ _ | .replace _ _ => true
  | _ => false

/-- A page has a slot if its entry says so, or if it is in transit in the innermost fault. -/
def Swapped (P : Proc) (v : ℕ) : Prop :=
  (∃ e ∈ P.space.pt, e.page = v ∧ e.inSwap = true) ∨
    ∃ act, P.stack.head? = some act ∧ act.pc.transit act.page = some v

/-- **The slots of an address space**: no entry is in memory and in the swap file, the slots are those
of the pages that are swapped, and a fault took the branch of its entry. -/
structure SlotsOk (sw : SwapSpace) (as : AsId) (P : Proc) : Prop where
  apart : ∀ e ∈ P.space.pt, e.inMem = true → e.inSwap = false
  held : ∀ v, sw.Holds as v ↔ Swapped P v
  branch : ∀ act, P.stack.head? = some act → act.pc.before = true →
    ∀ e ∈ P.space.pt, e.page = act.page → e.inSwap = act.inSwap

/-! ## The page table -/

section Table

variable {pt : List PtEntry} {e e' e₀ : PtEntry} {v j paddr : ℕ}

/-- A page has one entry. -/
theorem entry_unique (h : (pt.map PtEntry.page).Nodup) (he : e ∈ pt) (he' : e' ∈ pt)
    (hp : e.page = e'.page) : e = e' := List.inj_on_of_nodup_map h he he' hp

/-- **`pt_update`** changes the entry of the page. -/
theorem mem_ptUpdate_iff (h : (pt.map PtEntry.page).Nodup) :
    e ∈ ptUpdate pt v ↔ e ∈ pt ∧ e.page ≠ v ∨
      ∃ e₀ ∈ pt, e₀.page = v ∧ e = { e₀ with inMem := false, inSwap := true, frame := 0 } := by
  induction pt with
  | nil => simp [ptUpdate]
  | cons e' pt ih =>
    rw [List.map_cons, List.nodup_cons] at h
    have hother : ∀ x ∈ pt, x.page ≠ e'.page := fun x hx hp =>
      h.1 (List.mem_map.mpr ⟨x, hx, hp⟩)
    rw [ptUpdate]
    split_ifs with hv
    · subst hv
      simp only [List.mem_cons]
      constructor
      · rintro (rfl | he)
        · exact .inr ⟨e', .inl rfl, rfl, rfl⟩
        · exact .inl ⟨.inr he, hother e he⟩
      · rintro (⟨rfl | he, hne⟩ | ⟨e₀, rfl | he₀, hp, rfl⟩)
        · exact absurd rfl hne
        · exact .inr he
        · exact .inl rfl
        · exact absurd hp (hother e₀ he₀)
    · simp only [List.mem_cons, ih h.2]
      constructor
      · rintro (rfl | ⟨he, hne⟩ | ⟨e₀, he₀, hp, rfl⟩)
        · exact .inl ⟨.inl rfl, hv⟩
        · exact .inl ⟨.inr he, hne⟩
        · exact .inr ⟨e₀, .inr he₀, hp, rfl⟩
      · rintro (⟨rfl | he, hne⟩ | ⟨e₀, rfl | he₀, hp, rfl⟩)
        · exact .inl rfl
        · exact .inr (.inl ⟨he, hne⟩)
        · exact absurd hp hv
        · exact .inr (.inr ⟨e₀, he₀, hp, rfl⟩)

/-- **The entry of a frame** is the only one that changes. -/
theorem mem_ptSetFrame_iff (h : (pt.map PtEntry.page).Nodup) (he₀ : pt[j]? = some e₀) :
    e ∈ ptSetFrame pt j paddr ↔ e ∈ pt ∧ e.page ≠ e₀.page ∨
      e = { e₀ with frame := paddr, inMem := true, inSwap := false } := by
  have hne : ∀ {i : ℕ} {x : PtEntry}, pt[i]? = some x → (x.page ≠ e₀.page ↔ i ≠ j) := fun {i x} hx => by
    constructor
    · rintro hp rfl
      rw [he₀] at hx
      cases hx
      exact hp rfl
    · intro hij hp
      refine hij ?_
      have hi : (pt.map PtEntry.page)[i]? = some e₀.page := by rw [List.getElem?_map, hx, ← hp]; rfl
      have hj : (pt.map PtEntry.page)[j]? = some e₀.page := by rw [List.getElem?_map, he₀]; rfl
      exact (List.getElem?_inj (List.getElem?_eq_some_iff.mp hi).1 h).mp (hi.trans hj.symm)
  rw [List.mem_iff_getElem?]
  constructor
  · rintro ⟨i, hi⟩
    by_cases hij : i = j
    · rw [hij, getElem?_ptSetFrame_self he₀] at hi
      exact .inr (Option.some.inj hi).symm
    · rw [getElem?_ptSetFrame_ne hij] at hi
      exact .inl ⟨List.mem_of_getElem? hi, (hne hi).mpr hij⟩
  · rintro (⟨he, hp⟩ | rfl)
    · obtain ⟨i, hi⟩ := List.mem_iff_getElem?.mp he
      exact ⟨i, by rw [getElem?_ptSetFrame_ne ((hne hi).mp hp)]; exact hi⟩
    · exact ⟨j, getElem?_ptSetFrame_self he₀⟩

end Table

/-! ## The slots -/

section Slots

variable {sw sw' : SwapSpace} {as as' : AsId} {i v w : ℕ}

theorem holds_congr (h : sw'.entry = sw.entry) : sw'.Holds as v ↔ sw.Holds as v := by
  unfold SwapSpace.Holds
  rw [h]

/-- A free slot is taken. -/
theorem holds_tag (hi : i < swapSize) (hfree : (sw.entry i).as = none) :
    (sw.setEntry i ⟨some as', w⟩).Holds as v ↔ sw.Holds as v ∨ as = as' ∧ v = w := by
  constructor
  · rintro ⟨j, hj, he⟩
    rw [SwapSpace.setEntry_entry] at he
    split_ifs at he
    · cases he
      exact .inr ⟨rfl, rfl⟩
    · exact .inl ⟨j, hj, he⟩
  · rintro (⟨j, hj, he⟩ | ⟨rfl, rfl⟩)
    · refine ⟨j, hj, ?_⟩
      rw [SwapSpace.setEntry_entry, if_neg]
      · exact he
      · rintro rfl
        rw [he] at hfree
        cases hfree
    · exact ⟨i, hi, by rw [SwapSpace.setEntry_entry, if_pos rfl]⟩

/-- A slot is released. -/
theorem holds_release (h : sw.ApartFor as') (hi : i < swapSize) (htag : sw.entry i = ⟨some as', w⟩) :
    (sw.setEntry i ⟨none, 0⟩).Holds as v ↔ sw.Holds as v ∧ ¬ (as = as' ∧ v = w) := by
  constructor
  · rintro ⟨j, hj, he⟩
    rw [SwapSpace.setEntry_entry] at he
    split_ifs at he with hji
    · cases he
    · refine ⟨⟨j, hj, he⟩, ?_⟩
      rintro ⟨rfl, rfl⟩
      exact hji (h j hj i hi _ he htag)
  · rintro ⟨⟨j, hj, he⟩, hne⟩
    refine ⟨j, hj, ?_⟩
    rw [SwapSpace.setEntry_entry, if_neg]
    · exact he
    · rintro rfl
      rw [htag] at he
      cases he
      exact hne ⟨rfl, rfl⟩

theorem eq_of_as : ∀ {e : SwapEntry}, e.as = some as → e = ⟨some as, e.vaddr⟩
  | ⟨_, _⟩, rfl => rfl

theorem apart_iff : sw.Apart ↔ ∀ as, sw.ApartFor as := by
  constructor
  · intro h as i hi j hj v hei hej
    exact h i hi j hj (by rw [hei]; exact Option.some_ne_none _) (hei.trans hej.symm)
  · intro h i hi j hj hne he
    obtain ⟨as, has⟩ := Option.ne_none_iff_exists'.mp hne
    exact h as i hi j hj _ (eq_of_as has) (he ▸ eq_of_as has)

namespace SwapSpace.ApartFor

/-- Slots may be released, and others may take them. -/
theorem mono (h : sw.ApartFor as)
    (hsub : ∀ i < swapSize, ∀ v, sw'.entry i = ⟨some as, v⟩ → sw.entry i = ⟨some as, v⟩) :
    sw'.ApartFor as :=
  fun i hi j hj v hei hej => h i hi j hj v (hsub i hi v hei) (hsub j hj v hej)

/-- A page without a slot gets one. -/
theorem tag (h : sw.ApartFor as) (hno : ¬ sw.Holds as w) :
    (sw.setEntry i ⟨some as, w⟩).ApartFor as := by
  intro j hj k hk v hej hek
  rw [setEntry_entry] at hej hek
  split_ifs at hej hek with hji hki hki
  · rw [hji, hki]
  · cases hej
    exact absurd ⟨k, hk, hek⟩ hno
  · cases hek
    exact absurd ⟨j, hj, hej⟩ hno
  · exact h j hj k hk v hej hek

end SwapSpace.ApartFor

end Slots

/-! ## The steps of a fault -/

section Go

variable {s s' : VmState} {sw sw' : SwapSpace} {as : AsId} {P P' : Proc} {act : Activation}
  {rest : List Activation} {v paddr : ℕ}

theorem swapped_iff (hst : P.stack = act :: rest) :
    Swapped P v ↔ (∃ e ∈ P.space.pt, e.page = v ∧ e.inSwap = true) ∨
      act.pc.transit act.page = some v := by
  unfold Swapped
  rw [hst]
  simp

/-- The page of a fault has an entry. -/
theorem Activation.Found.entry {space : Addrspace} (h : act.Found space) :
    ∃ e, space.pt[act.j]? = some e ∧ e ∈ space.pt ∧ e.page = act.page := by
  obtain ⟨-, -, e, he, hp⟩ := findPte_some h.pte
  exact ⟨e, he, List.mem_of_getElem? he, hp⟩

/-- A page in memory has an entry that says so. -/
theorem Addrspace.InMem.entry {space : Addrspace} (h : space.InMem v paddr) :
    ∃ e ∈ space.pt, e.page = v ∧ e.inMem = true ∧ e.frame = paddr := by
  obtain ⟨j, e, hj, he, hin, hf⟩ := h
  exact ⟨e, List.mem_of_getElem? he, page_of_lookup hj he, hin, hf⟩

/-- The innermost fault goes on, and the page table stays as it is. -/
theorem SlotsOk.keep {pc : Pc} (h : SlotsOk sw as P) (hst : P.stack = act :: rest)
    (hpt : P'.space.pt = P.space.pt) (hst' : P'.stack = { act with pc := pc } :: rest)
    (hbefore : pc.before = true → act.pc.before = true)
    (hheld : ∀ v, sw'.Holds as v ↔ (∃ e ∈ P.space.pt, e.page = v ∧ e.inSwap = true) ∨
      pc.transit act.page = some v) : SlotsOk sw' as P' := by
  refine ⟨by rw [hpt]; exact h.apart, fun v => ?_, fun r hr hb => ?_⟩
  · rw [hheld, swapped_iff hst', hpt]
  · rw [hst'] at hr
    obtain rfl := Option.some.inj hr
    rw [hpt]
    exact h.branch act (by rw [hst]; rfl) (hbefore hb)

/-- The innermost fault goes on without any change. -/
theorem SlotsOk.quiet {pc : Pc} (h : SlotsOk sw as P) (hst : P.stack = act :: rest)
    (hpt : P'.space.pt = P.space.pt) (hst' : P'.stack = { act with pc := pc } :: rest)
    (hbefore : pc.before = true → act.pc.before = true)
    (htransit : pc.transit act.page = act.pc.transit act.page) (hsw : sw'.entry = sw.entry) :
    SlotsOk sw' as P' := by
  refine h.keep hst hpt hst' hbefore fun v => ?_
  rw [holds_congr hsw, h.held, swapped_iff hst, htransit]

@[simp] theorem before_filled : (act.filled paddr).before = false := by
  unfold Activation.filled
  split_ifs <;> rfl

theorem transit_filled :
    (act.filled paddr).transit v = if act.inSwap = true then some v else none := by
  unfold Activation.filled
  split_ifs <;> rfl

@[simp] theorem before_copying {what : Fill} {dst len done : ℕ} {buf : ℕ → UInt8} :
    (act.copying what paddr dst len buf done).before = false := by
  unfold Activation.copying
  split_ifs
  · cases what <;> rfl
  · cases what <;> rfl
  · rfl

@[simp] theorem transit_copying {what : Fill} {dst len done : ℕ} {buf : ℕ → UInt8} :
    (act.copying what paddr dst len buf done).transit v = none := by
  unfold Activation.copying
  split_ifs
  · cases what <;> rfl
  · cases what <;> rfl
  · rfl

/-- **The page of the fault is entered**: if it has a slot, it is in transit now. -/
theorem SlotsOk.enter (h : SlotsOk sw as P) (hnd : P.space.pages.Nodup) (hst : P.stack = act :: rest)
    (hfound : act.Found P.space) (hbefore : act.pc.before = true)
    (htransit : act.pc.transit act.page = none) : SlotsOk sw as (P.enter act rest paddr) := by
  obtain ⟨e₀, he₀, hmem₀, hp₀⟩ := hfound.entry
  have hin : e₀.inSwap = act.inSwap := h.branch act (by rw [hst]; rfl) hbefore e₀ hmem₀ hp₀
  have hpt : ∀ e, e ∈ (P.enter act rest paddr).space.pt ↔ e ∈ P.space.pt ∧ e.page ≠ e₀.page ∨
      e = { e₀ with frame := paddr, inMem := true, inSwap := false } :=
    fun e => mem_ptSetFrame_iff hnd he₀
  refine ⟨fun e he hm => ?_, fun v => ?_, fun r hr hb => ?_⟩
  · rcases (hpt e).mp he with ⟨he, -⟩ | rfl
    · exact h.apart e he hm
    · rfl
  · have htr : ((act.filled paddr).transit act.page = some v) ↔ act.inSwap = true ∧ act.page = v := by
      rw [transit_filled]
      split_ifs with hs <;> simp [hs]
    rw [h.held, swapped_iff hst, htransit, swapped_iff (P := P.enter act rest paddr) rfl]
    change _ ↔ _ ∨ (act.filled paddr).transit act.page = some v
    rw [htr]
    constructor
    · rintro (⟨e, he, rfl, hs⟩ | hno)
      · by_cases hep : e.page = e₀.page
        · obtain rfl := entry_unique hnd he hmem₀ hep
          exact .inr ⟨hin.symm.trans hs, hp₀.symm⟩
        · exact .inl ⟨e, (hpt e).mpr (.inl ⟨he, hep⟩), rfl, hs⟩
      · cases hno
    · rintro (⟨e, he, rfl, hs⟩ | ⟨hs, rfl⟩)
      · rcases (hpt e).mp he with ⟨he, -⟩ | rfl
        · exact .inl ⟨e, he, rfl, hs⟩
        · cases hs
      · exact .inl ⟨e₀, hmem₀, hp₀, hin.trans hs⟩
  · obtain rfl := Option.some.inj hr
    change (act.filled paddr).before = true at hb
    rw [before_filled] at hb
    cases hb

/-- `swap_out` starts with a page that has no slot. -/
theorem SlotsOk.not_holds {victim pos : ℕ} (h : SlotsOk sw as P) (hnd : P.space.pages.Nodup)
    (hst : P.stack = act :: rest) (hok : FaultOk s as P)
    (hpc : act.pc = .swapOutFind victim pos paddr) : ¬ sw.Holds as victim := by
  have hin := hok.pc act (by rw [hst]; exact List.mem_cons_self)
  rw [hpc] at hin
  obtain ⟨e, he, rfl, hmem, -⟩ := hin.2.1.entry
  rw [h.held, swapped_iff hst, hpc]
  rintro (⟨e', he', hp, hs⟩ | hno)
  · obtain rfl := entry_unique hnd he' he hp
    rw [h.apart _ he hmem] at hs
    cases hs
  · cases hno

/-- **The step of a fault** keeps the slots of its address space. -/
theorem slotsOk_of_goStep (hst : P.stack = act :: rest) (hok : FaultOk s as P)
    (hnd : P.space.pages.Nodup) (hapart : s.sw.ApartFor as) (h : SlotsOk s.sw as P)
    (hgo : GoStep s as P act rest s') (hP' : s'.procs as = some P') : SlotsOk s'.sw as P' := by
  have hact : act ∈ P.stack := by rw [hst]; exact List.mem_cons_self
  have hfound := hok.found act hact
  have hpc₀ := hok.pc act hact
  cases hgo with
  | full hpc hs =>
    obtain rfl := Option.some.inj ((setProc_self _ _ _).symm.trans hP')
    exact h.quiet hst rfl rfl (fun _ => by rw [hpc]; rfl) (by rw [hpc]; rfl) rfl
  | alloc hpc hs hne =>
    obtain rfl := Option.some.inj ((setProc_self _ _ _).symm.trans hP')
    exact h.enter hnd hst hfound (by rw [hpc]; rfl) (by rw [hpc]; rfl)
  | evict hpc hs =>
    obtain rfl := Option.some.inj ((setProc_self _ _ _).symm.trans hP')
    exact h.quiet hst rfl rfl (fun _ => by rw [hpc]; rfl) (by rw [hpc]; rfl) rfl
  | @swapOutFind victim pos paddr i sw hpc hs =>
    obtain rfl := Option.some.inj ((setProc_self _ _ _).symm.trans hP')
    obtain ⟨hi, hfree, rfl⟩ := swapOutFind_some hs
    refine h.keep hst rfl rfl (fun _ => by rw [hpc]; rfl) fun v => ?_
    have hold := h.held v
    rw [swapped_iff hst, hpc, or_iff_left (fun e => by cases e)] at hold
    change (s.sw.setEntry i _).Holds as v ↔ _ ∨ some victim = some v
    rw [holds_tag hi hfree, hold, and_iff_right rfl, Option.some.injEq, eq_comm]
  | swapOutCopy hpc hlt hpa =>
    obtain rfl := Option.some.inj ((setProc_self _ _ _).symm.trans hP')
    exact h.quiet hst rfl rfl (fun _ => by rw [hpc]; rfl) (by rw [hpc]; rfl) rfl
  | swapOutCopied hpc hall hpa =>
    obtain rfl := Option.some.inj ((setProc_self _ _ _).symm.trans hP')
    exact h.quiet hst rfl rfl (fun _ => by rw [hpc]; rfl) (by rw [hpc]; rfl) rfl
  | swapOutWrite hpc =>
    obtain rfl := Option.some.inj ((setProc_self _ _ _).symm.trans hP')
    exact h.quiet hst rfl rfl (fun _ => by rw [hpc]; rfl) (by rw [hpc]; rfl) rfl
  | @update victim pos paddr hpc =>
    obtain rfl := Option.some.inj ((setProc_self _ _ _).symm.trans hP')
    rw [hpc] at hpc₀
    obtain ⟨hno, hin, -⟩ := hpc₀
    obtain ⟨e₀, he₀, hp₀, -⟩ := hin.entry
    have hne : victim ≠ act.page := hin.ne hno
    have hpt := fun e => mem_ptUpdate_iff (e := e) (v := victim) hnd
    refine ⟨fun e he hm => ?_, fun v => ?_, fun r hr hb e he hep => ?_⟩
    · rcases (hpt e).mp he with ⟨he, -⟩ | ⟨e', he', -, rfl⟩
      · exact h.apart e he hm
      · cases hm
    · -- the entry of the victim says now what its slot says
      have hold := h.held v
      rw [swapped_iff hst, hpc] at hold
      refine hold.trans (Iff.trans ?_
        ((swapped_iff rfl).trans (or_iff_left fun e => by cases e)).symm)
      constructor
      · rintro (⟨e, he, rfl, hs⟩ | hv)
        · by_cases hev : e.page = victim
          · exact ⟨_, (hpt _).mpr (.inr ⟨e, he, hev, rfl⟩), rfl, rfl⟩
          · exact ⟨e, (hpt e).mpr (.inl ⟨he, hev⟩), rfl, hs⟩
        · obtain rfl : victim = v := Option.some.inj hv
          exact ⟨_, (hpt _).mpr (.inr ⟨e₀, he₀, hp₀, rfl⟩), hp₀, rfl⟩
      · rintro ⟨e, he, rfl, hs⟩
        rcases (hpt e).mp he with ⟨he, -⟩ | ⟨e', he', hp', rfl⟩
        · exact .inl ⟨e, he, rfl, hs⟩
        · exact .inr (congrArg some hp'.symm)
    · obtain rfl := Option.some.inj hr
      rcases (hpt e).mp he with ⟨he, -⟩ | ⟨e', he', hp', rfl⟩
      · exact h.branch act (by rw [hst]; rfl) (by rw [hpc]; rfl) e he hep
      · exact absurd (hp'.symm.trans hep) hne
  | replace hpc =>
    obtain rfl := Option.some.inj ((setProc_self _ _ _).symm.trans hP')
    exact h.enter hnd hst hfound (by rw [hpc]; rfl) (by rw [hpc]; rfl)
  | @swapInFind paddr i sw hpc hs =>
    obtain rfl := Option.some.inj ((setProc_self _ _ _).symm.trans hP')
    obtain ⟨hi, htag, rfl⟩ := swapInFind_some hs
    rw [hpc] at hpc₀
    obtain ⟨e₀, he₀, hp₀, hmem, -⟩ := Addrspace.InMem.entry hpc₀
    refine h.keep hst rfl rfl (fun hb => by cases hb) fun v => ?_
    have hold := h.held v
    rw [swapped_iff hst, hpc] at hold
    refine (holds_release hapart hi htag).trans ((and_congr_left' hold).trans (Iff.trans ?_
      (or_iff_left fun e => by cases e).symm))
    constructor
    · rintro ⟨hs | hv, hne⟩
      · exact hs
      · exact absurd ⟨rfl, (Option.some.inj hv).symm⟩ hne
    · rintro ⟨e, he, rfl, hs⟩
      refine ⟨.inl ⟨e, he, rfl, hs⟩, fun hv => ?_⟩
      obtain rfl := entry_unique hnd he he₀ (hv.2.trans hp₀.symm)
      rw [h.apart _ he hmem] at hs
      cases hs
  | swapInRead hpc =>
    obtain rfl := Option.some.inj ((setProc_self _ _ _).symm.trans hP')
    exact h.quiet hst rfl rfl (fun hb => by cases hb) (by rw [hpc]; rfl) rfl
  | fill hpc hle hpage hpa =>
    obtain rfl := Option.some.inj ((setProc_self _ _ _).symm.trans hP')
    exact h.quiet hst rfl rfl (fun hb => by rw [before_copying] at hb; cases hb)
      (by rw [hpc, transit_copying]; rfl) rfl
  | elfRead hpc hv hb =>
    obtain rfl := Option.some.inj ((setProc_self _ _ _).symm.trans hP')
    exact h.quiet hst rfl rfl (fun hb => by rw [before_copying] at hb; cases hb)
      (by rw [hpc, transit_copying]; rfl) rfl
  | setClean hpc =>
    obtain rfl := Option.some.inj ((setProc_self _ _ _).symm.trans hP')
    exact h.quiet hst rfl rfl (fun hb => by cases hb) (by rw [hpc]; rfl) rfl
  | map hpc =>
    obtain rfl := Option.some.inj ((setProc_self _ _ _).symm.trans hP')
    have helf : ∀ r, rest.head? = some r →
        ∃ paddr dst len buf done, r.pc = .fill .elf paddr dst len buf done :=
      fun r hr => hok.tail r (by rw [hst]; exact List.mem_of_mem_head? hr)
    refine ⟨h.apart, fun v => ?_, fun r hr hb => ?_⟩
    · have hold := h.held v
      rw [swapped_iff hst, hpc, or_iff_left (fun e => by cases e)] at hold
      refine hold.trans (or_iff_left ?_).symm
      rintro ⟨r, hr, ht⟩
      obtain ⟨_, _, _, _, _, hrpc⟩ := helf r hr
      rw [hrpc] at ht
      cases ht
    · obtain ⟨_, _, _, _, _, hrpc⟩ := helf r hr
      rw [hrpc] at hb
      cases hb

/-- No two slots hold the same page after the step of a fault. -/
theorem apart_of_goStep (hst : P.stack = act :: rest) (hok : FaultOk s as P)
    (hnd : P.space.pages.Nodup) (hapart : s.sw.ApartFor as) (h : SlotsOk s.sw as P)
    (hgo : GoStep s as P act rest s') : s'.sw.ApartFor as := by
  cases hgo with
  | swapOutFind hpc hs =>
    obtain ⟨-, -, rfl⟩ := swapOutFind_some hs
    exact hapart.tag (h.not_holds hnd hst hok hpc)
  | swapInFind hpc hs =>
    obtain ⟨-, -, rfl⟩ := swapInFind_some hs
    refine hapart.mono fun j _ v he => ?_
    change (s.sw.setEntry _ _).entry j = _ at he
    rw [SwapSpace.setEntry_entry] at he
    split_ifs at he
    · cases he
    · exact he
  | _ => exact hapart

/-- The pages stay as they are. -/
theorem pages_of_goStep (hgo : GoStep s as P act rest s') (hP' : s'.procs as = some P') :
    P'.space.pages = P.space.pages := by
  cases hgo with
  | alloc | replace =>
    obtain rfl := Option.some.inj ((setProc_self _ _ _).symm.trans hP')
    exact map_page_ptSetFrame
  | update =>
    obtain rfl := Option.some.inj ((setProc_self _ _ _).symm.trans hP')
    exact map_page_ptUpdate
  | _ =>
    obtain rfl := Option.some.inj ((setProc_self _ _ _).symm.trans hP')
    rfl

end Go

/-! ## The steps of the machine -/

/-- Regions share no page. -/
def DefineApart (s : VmState) : VmAction → Prop
  | .defineRegion as vaddr offset sz r w x b => ∀ P, s.procs as = some P → ∀ space,
    asDefineRegion P.space vaddr offset sz r w x b = some space → space.pages.Nodup
  | .defineStack as b => ∀ P, s.procs as = some P → (asDefineStack P.space b).pages.Nodup
  | _ => True

/-- **The invariant of one address space** whose regions are defined apart. -/
structure PlacedAt (s : VmState) (as : AsId) : Prop where
  nodup : ∀ P, s.procs as = some P → P.space.pages.Nodup
  fault : ∀ P, s.procs as = some P → P.stage = .running → FaultOk s as P
  slots : ∀ P, s.procs as = some P → P.stage = .running → SlotsOk s.sw as P
  apart : s.sw.ApartFor as

/-- **The invariant of the machine** where regions are defined apart. -/
structure Placed (s : VmState) : Prop where
  own : Own s
  nodup : ∀ as P, s.procs as = some P → P.space.pages.Nodup
  fault : ∀ as P, s.procs as = some P → P.stage = .running → FaultOk s as P
  slots : ∀ as P, s.procs as = some P → P.stage = .running → SlotsOk s.sw as P
  apart : s.sw.Apart

section Step

variable {s s' : VmState} {sw sw' : SwapSpace} {as : AsId} {P P' : Proc} {a : VmAction} {v : ℕ}

theorem Agree.slot_holds (h : Agree as s s') : s'.sw.Holds as v ↔ s.sw.Holds as v :=
  exists_congr fun i => and_congr_right fun hi => h.slot i hi v

theorem SlotsOk.of_agree (h : SlotsOk s.sw as P) (ha : Agree as s s') : SlotsOk s'.sw as P :=
  ⟨h.apart, fun v => ha.slot_holds.trans (h.held v), h.branch⟩

/-- A new region has no page in the swap file. -/
theorem SlotsOk.extend {space : Addrspace} (h : SlotsOk sw as P) (hst : P.stack = [])
    (he : Extends P.space space) : SlotsOk sw as { P with space := space } := by
  obtain ⟨seg, new, -, -, -, hpt, -, hnew⟩ := he
  have hno : ∀ {act}, P.stack.head? ≠ some act := by simp [hst]
  refine ⟨fun e hmem hin => ?_, fun v => ?_, fun act hact => absurd hact hno⟩
  · rcases List.mem_append.mp (hpt ▸ hmem) with hmem | hmem
    · exact (hnew e hmem).2
    · exact h.apart e hmem hin
  · rw [h.held]
    unfold Swapped
    simp only [hpt, List.mem_append]
    refine or_congr_left ⟨?_, ?_⟩
    · rintro ⟨e, hmem, hp, hs⟩
      exact ⟨e, .inr hmem, hp, hs⟩
    · rintro ⟨e, hmem | hmem, hp, hs⟩
      · rw [(hnew e hmem).2] at hs
        cases hs
      · exact ⟨e, hmem, hp, hs⟩

/-- The invariant of the machine is that of all address spaces. -/
theorem placed_iff : Placed s ↔ Own s ∧ ∀ as, PlacedAt s as :=
  ⟨fun h => ⟨h.own, fun as => ⟨h.nodup as, h.fault as, h.slots as, apart_iff.mp h.apart as⟩⟩,
    fun ⟨hown, h⟩ => ⟨hown, fun as => (h as).nodup, fun as => (h as).fault, fun as => (h as).slots,
      apart_iff.mpr fun as => (h as).apart⟩⟩

theorem Placed.placedAt (h : Placed s) (as : AsId) : PlacedAt s as := (placed_iff.mp h).2 as

/-- An address space that does not exist has no page. -/
theorem placedAt_of_gone (hown : Own s) (hgone : s.procs as = none) : PlacedAt s as where
  nodup P hP := by rw [hgone] at hP; cases hP
  fault P hP := by rw [hgone] at hP; cases hP
  slots P hP := by rw [hgone] at hP; cases hP
  apart i hi _ _ _ he := absurd (congrArg SwapEntry.as he) ((hown.gone as hgone).2 i hi)

theorem nodup_of_vmStep (hown : Own s) (h : PlacedAt s as)
    (hdef : a.actor = some as → DefineApart s a) (hstep : VmStep s a s') :
    ∀ P, s'.procs as = some P → P.space.pages.Nodup := by
  intro P' hP'
  by_cases hact : a.actor = some as
  swap
  · exact h.nodup P' ((agree_of_vmStep hown hstep hact).procs.symm.trans hP')
  have hdef := hdef hact
  cases hstep with
  | create =>
    cases hact
    obtain rfl := Option.some.inj ((setProc_self _ _ _).symm.trans hP')
    exact List.nodup_nil
  | defineRegion hP hrun hst ho hd =>
    cases hact
    obtain rfl := Option.some.inj ((setProc_self _ _ _).symm.trans hP')
    exact hdef _ hP _ hd
  | defineStack hP =>
    cases hact
    obtain rfl := Option.some.inj ((setProc_self _ _ _).symm.trans hP')
    exact hdef _ hP
  | completeLoad hP | exitCm _ hP | exitSwap _ hP =>
    cases hact
    obtain rfl := Option.some.inj ((setProc_self _ _ _).symm.trans hP')
    exact (h.nodup _ hP :)
  | exitDone =>
    cases hact
    cases (Function.update_self as none s.procs).symm.trans hP'
  | fault _ hP _ _ _ _ hf =>
    cases hact
    cases hf with
    | reload => exact h.nodup _ hP'
    | push | abort =>
      obtain rfl := Option.some.inj ((setProc_self _ _ _).symm.trans hP')
      exact (h.nodup _ hP :)
  | go hcur hP hrun hst hgo =>
    cases hact
    rw [pages_of_goStep hgo hP']
    exact h.nodup _ hP
  | _ => cases hact

theorem slotsOk_of_vmStep (hown : Own s) (h : PlacedAt s as) (hstep : VmStep s a s') :
    ∀ P, s'.procs as = some P → P.stage = .running → SlotsOk s'.sw as P := by
  intro P' hP' hrun'
  by_cases hact : a.actor = some as
  swap
  · have hag := agree_of_vmStep hown hstep hact
    exact (h.slots P' (hag.procs.symm.trans hP') hrun').of_agree hag
  cases hstep with
  | create hnone =>
    cases hact
    obtain rfl := Option.some.inj ((setProc_self _ _ _).symm.trans hP')
    refine ⟨fun e he => (List.not_mem_nil he).elim, fun v => ?_, fun act hact => by cases hact⟩
    refine iff_of_false ?_ ?_
    · rintro ⟨i, hi, he⟩
      exact (hown.gone _ hnone).2 i hi (congrArg SwapEntry.as he)
    · rintro (⟨e, he, -⟩ | ⟨act, hact, -⟩)
      · cases he
      · cases hact
  | defineRegion hP hrun hst ho hd =>
    cases hact
    obtain rfl := Option.some.inj ((setProc_self _ _ _).symm.trans hP')
    exact (h.slots _ hP hrun).extend hst (extends_asDefineRegion ho hd)
  | defineStack hP hrun hst =>
    cases hact
    obtain rfl := Option.some.inj ((setProc_self _ _ _).symm.trans hP')
    exact (h.slots _ hP hrun).extend hst extends_asDefineStack
  | completeLoad hP hrun hst =>
    cases hact
    obtain rfl := Option.some.inj ((setProc_self _ _ _).symm.trans hP')
    exact ⟨(h.slots _ hP hrun).apart, (h.slots _ hP hrun).held, (h.slots _ hP hrun).branch⟩
  | exitCm | exitSwap =>
    cases hact
    obtain rfl := Option.some.inj ((setProc_self _ _ _).symm.trans hP')
    cases hrun'
  | exitDone =>
    cases hact
    cases (Function.update_self as none s.procs).symm.trans hP'
  | @fault _ P a' _ hcur hP hrun ha hmiss hst hf =>
    cases hact
    have hok := h.fault _ hP hrun
    have hs := h.slots _ hP hrun
    cases hf with
    | reload => exact h.slots _ hP' hrun'
    | @push seg j pte hseg hj hpte hin =>
      obtain rfl := Option.some.inj ((setProc_self _ _ _).symm.trans hP')
      have hout : P.space.NotInMem (pageFrame a') :=
        ⟨j, pte, lookup_eq_some.mpr ⟨seg, hseg, hj⟩, hpte, hin⟩
      refine ⟨hs.apart, fun v => ?_, fun act hact _ e he hp => ?_⟩
      · -- the interrupted fault copies a program page
        refine (hs.held v).trans (or_congr_right (iff_of_false ?_ ?_))
        · rintro ⟨act, hhead, ht⟩
          have hmem := List.mem_of_mem_head? hhead
          rcases hst with hnil | hacc
          · rw [hnil] at hhead
            cases hhead
          · rw [hhead] at hacc
            obtain ⟨_, _, _, _, _, hpc⟩ :=
              (hok.pc act hmem).elf_of_notInMem hacc (hok.found act hmem).user hout
            rw [hpc] at ht
            cases ht
        · rintro ⟨act, hhead, ht⟩
          obtain rfl := Option.some.inj hhead
          cases ht
      · obtain rfl := Option.some.inj hact
        have hpage := page_of_lookup (lookup_eq_some.mpr ⟨seg, hseg, hj⟩) hpte
        obtain rfl := entry_unique (h.nodup _ hP) he (List.mem_of_getElem? hpte)
          (hp.trans hpage.symm)
        rfl
    | abort hst' hpc hno =>
      obtain rfl := Option.some.inj ((setProc_self _ _ _).symm.trans hP')
      exact hs.quiet hst' rfl rfl (fun hb => by cases hb) (by rw [hpc]; rfl) rfl
  | go hcur hP hrun hst hgo =>
    cases hact
    exact slotsOk_of_goStep hst (h.fault _ hP hrun) (h.nodup _ hP) h.apart
      (h.slots _ hP hrun) hgo hP'
  | _ => cases hact

theorem apartFor_of_vmStep (hown : Own s) (h : PlacedAt s as) (hstep : VmStep s a s') :
    s'.sw.ApartFor as := by
  by_cases hact : a.actor = some as
  swap
  · have hag := agree_of_vmStep hown hstep hact
    exact h.apart.mono fun i hi v he => (hag.slot i hi v).mp he
  cases hstep with
  | exitSwap _ _ _ hsw =>
    rw [hsw]
    exact h.apart.mono fun i hi v he => ((swapAsfree_slot hi).mp he).1
  | fault _ _ _ _ _ _ hf => cases hf <;> exact h.apart
  | go hcur hP hrun hst hgo =>
    cases hact
    exact apart_of_goStep hst (h.fault _ hP hrun) (h.nodup _ hP) h.apart (h.slots _ hP hrun) hgo
  | _ => exact h.apart

/-- **Every step keeps the invariant** of an address space, whatever the others do. -/
theorem placedAt_step (hown : Own s) (h : PlacedAt s as) (hdef : a.actor = some as → DefineApart s a)
    (hs : s.step a = .ok s') : PlacedAt s' as := by
  have hstep := vmStep_of_step hs
  have hnd := nodup_of_vmStep hown h hdef hstep
  exact ⟨hnd, faultOk_of_vmStep hown hstep (.inr hnd) h.fault, slotsOk_of_vmStep hown h hstep,
    apartFor_of_vmStep hown h hstep⟩

/-- **Every step keeps the invariant.** -/
theorem placed_step (h : Placed s) (hdef : DefineApart s a) (hs : s.step a = .ok s') : Placed s' :=
  placed_iff.mpr ⟨own_step h.own (vmStep_of_step hs),
    fun as => placedAt_step h.own (h.placedAt as) (fun _ => hdef) hs⟩

end Step

section Run

variable {ram : RamLayout} {garbage : ℕ → CmEntry} {file mem : ℕ → UInt8}
  {files : FileId → List UInt8} {acts : List VmAction} {s : VmState}

theorem placed_boot : Placed (VmState.boot ram garbage file mem files) where
  own := own_boot
  nodup := fun as P hP => by cases hP
  fault := fun as P hP => by cases hP
  slots := fun as P hP => by cases hP
  apart _ _ _ _ hne := absurd rfl hne

/-- **Every reachable state** has each swapped page in one slot. -/
theorem placed_run
    (hdef : Along VmState.step DefineApart (VmState.boot ram garbage file mem files) acts)
    (h : run VmState.step (VmState.boot ram garbage file mem files) acts = .ok s) : Placed s :=
  run_inv_along VmState.step (fun _ _ _ hs hd ht => placed_step hs hd ht) placed_boot hdef h

end Run

end Os161
