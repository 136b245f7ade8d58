import Os161.Lib.Loop
import Os161.Machine.Word

set_option autoImplicit false

/-!
# The TLB

`tlb.c` and the loop of `as_activate`, over the 64 slots of the processor. `tlb_probe` finds the slot
of a page whether its entry is valid or not.

* `tlbW`: a mapping is entered, in place of one for the same page, in a slot without a valid entry,
  or in the next slot of the round robin.
* `tlbR`: a mapping is entered in place of that of a victim, if there is one.
* `Tlb.Wf`: no page is in two slots, and the invalid entries are for pages that are never looked up.
-/

namespace Os161

open Loop

/-- `NUM_TLB`. -/
def numTlb : ℕ := 64

/-- A slot: the page in the high word, the frame and the two flags in the low one. -/
structure TlbEntry where
  vpage : ℕ
  ppage : ℕ
  dirty : Bool
  valid : Bool
  deriving DecidableEq, Repr

/-- The slots, and the counter `next_victim` of `tlb.c`. -/
structure Tlb where
  entry : ℕ → TlbEntry
  nextVictim : ℕ

/-- `TLBHI_INVALID(i)` with `TLBLO_INVALID()`. -/
def tlbInvalid (i : ℕ) : TlbEntry := ⟨kseg0 + i * pageSize, 0, false, false⟩

/-- `tlb_write`. -/
def tlbWrite (t : Tlb) (i : ℕ) (e : TlbEntry) : Tlb :=
  { t with entry := Function.update t.entry i e }

/-- `tlb_probe`. -/
def tlbProbe (t : Tlb) (page : ℕ) : Option ℕ := firstIdx (fun i => (t.entry i).vpage = page) 0 numTlb

/-- `tlb_get_rr_victim`. -/
def tlbGetRrVictim (t : Tlb) : ℕ × Tlb :=
  (t.nextVictim, { t with nextVictim := (t.nextVictim + 1) % numTlb })

/-- `tlbW`. -/
def tlbW (t : Tlb) (faultaddress paddr write : ℕ) : Tlb :=
  let e : TlbEntry := ⟨faultaddress, paddr, 0 < write, true⟩
  match tlbProbe t faultaddress with
  | some i => tlbWrite t i e
  | none =>
    match firstIdx (fun i => !(t.entry i).valid) 0 numTlb with
    | some i => tlbWrite t i e
    | none =>
      let (i, t') := tlbGetRrVictim t
      tlbWrite t' i e

/-- `tlbR`. -/
def tlbR (t : Tlb) (victim faultaddress paddr : ℕ) : Tlb :=
  match tlbProbe t victim with
  | some x => tlbWrite t x ⟨faultaddress, paddr, true, true⟩
  | none => t

/-- The loop of `as_activate`. -/
def tlbFlush (t : Tlb) : Tlb :=
  { t with entry := forRange 0 numTlb (fun i g => Function.update g i (tlbInvalid i)) t.entry }

/-- The translation of a page by the processor: a valid entry for it. -/
def Tlb.lookup (t : Tlb) (page : ℕ) : Option TlbEntry :=
  (tlbProbe t page).bind fun i => if (t.entry i).valid then some (t.entry i) else none

/-! ## What the TLB maps -/

/-- Some slot maps page `v` to frame `f`, writable or not. -/
def Tlb.Maps (t : Tlb) (v f : ℕ) (d : Bool) : Prop := ∃ i < numTlb, t.entry i = ⟨v, f, d, true⟩

/-- **No page is in two slots**, valid entries are for user pages and invalid ones are not. -/
structure Tlb.Wf (t : Tlb) : Prop where
  unique : ∀ i < numTlb, ∀ j < numTlb, (t.entry i).vpage = (t.entry j).vpage → i = j
  user : ∀ i < numTlb, (t.entry i).valid = true ↔ (t.entry i).vpage < userspaceTop
  victim : t.nextVictim < numTlb

section Lemmas

variable {t t' : Tlb} {v f fa paddr victim write i : ℕ} {d : Bool} {e : TlbEntry}

theorem tlbWrite_entry (j : ℕ) : (tlbWrite t i e).entry j = if j = i then e else t.entry j :=
  Function.update_apply _ _ _ _

theorem tlbProbe_some (h : tlbProbe t v = some i) : i < numTlb ∧ (t.entry i).vpage = v := by
  have := firstIdx_some h
  exact ⟨this.1, by simpa using this.2⟩

theorem tlbProbe_none (h : tlbProbe t v = none) : ∀ i < numTlb, (t.entry i).vpage ≠ v := by
  intro i hi
  simpa using firstIdx_eq_none.mp h i (Nat.zero_le _) (by omega)

/-- A translation comes from a slot. -/
theorem Tlb.maps_of_lookup (h : t.lookup v = some e) : e.vpage = v ∧ t.Maps v e.ppage e.dirty := by
  obtain ⟨i, hi, he⟩ := Option.bind_eq_some_iff.mp h
  obtain ⟨hlt, hv⟩ := tlbProbe_some hi
  split_ifs at he with hvalid
  obtain rfl := Option.some.inj he
  refine ⟨hv, i, hlt, ?_⟩
  rw [← hv, ← hvalid]

/-- A page without a translation is in no valid slot. -/
theorem Tlb.Wf.not_maps_of_lookup (h : t.Wf) (hno : t.lookup v = none) : ¬ t.Maps v f d := by
  rintro ⟨i, hi, he⟩
  have hv : (t.entry i).vpage = v := by rw [he]
  cases hp : tlbProbe t v with
  | none => exact tlbProbe_none hp i hi hv
  | some j =>
    obtain ⟨hj, hjv⟩ := tlbProbe_some hp
    obtain rfl := h.unique j hj i hi (hjv.trans hv.symm)
    rw [Tlb.lookup, hp] at hno
    simp [he] at hno

/-- A slot that is rewritten for a page that no other slot is for. -/
theorem Tlb.Wf.tlbWrite (h : t.Wf) (hv : v < userspaceTop)
    (hother : ∀ j < numTlb, j ≠ i → (t.entry j).vpage ≠ v) :
    (Os161.tlbWrite t i ⟨v, f, d, true⟩).Wf := by
  refine ⟨fun j hj k hk he => ?_, fun j hj => ?_, h.victim⟩
  · rw [tlbWrite_entry, tlbWrite_entry] at he
    split_ifs at he with h₁ h₂ h₂
    · rw [h₁, h₂]
    · exact absurd he.symm (hother k hk h₂)
    · exact absurd he (hother j hj h₁)
    · exact h.unique j hj k hk he
  · rw [tlbWrite_entry]
    split_ifs
    · simp [hv]
    · exact h.user j hj

theorem Tlb.maps_write {v' f' : ℕ} {d' : Bool}
    (h : (tlbWrite t i ⟨v, f, d, true⟩).Maps v' f' d') :
    (v' = v ∧ f' = f ∧ d' = d) ∨ ∃ j < numTlb, j ≠ i ∧ t.entry j = ⟨v', f', d', true⟩ := by
  obtain ⟨j, hj, he⟩ := h
  rw [tlbWrite_entry] at he
  split_ifs at he with hji
  · cases he
    exact .inl ⟨rfl, rfl, rfl⟩
  · exact .inr ⟨j, hj, hji, he⟩

/-- **`tlbW`** writes one slot, and then no other slot is for the page. -/
theorem tlbW_cases (t : Tlb) (fa paddr write : ℕ) :
    ∃ t₁ i, tlbW t fa paddr write = tlbWrite t₁ i ⟨fa, paddr, 0 < write, true⟩ ∧
      t₁.entry = t.entry ∧ (t.nextVictim < numTlb → t₁.nextVictim < numTlb) ∧
      (t.Wf → ∀ j < numTlb, j ≠ i → (t.entry j).vpage ≠ fa) := by
  unfold tlbW
  simp only
  split
  · next i hi =>
    obtain ⟨hlt, hv⟩ := tlbProbe_some hi
    exact ⟨t, i, rfl, rfl, id, fun h j hj hne he => hne (h.unique j hj i hlt (he.trans hv.symm))⟩
  · next hnone =>
    have hno := tlbProbe_none hnone
    split
    · next i _ => exact ⟨t, i, rfl, rfl, id, fun _ j hj _ => hno j hj⟩
    · exact ⟨_, t.nextVictim, rfl, rfl, fun _ => Nat.mod_lt _ (by decide), fun _ j hj _ => hno j hj⟩

/-- A slot that is rewritten for a page is the one that is found for it, if none before it is. -/
theorem tlbProbe_tlbWrite (hi : i < numTlb) (hbefore : ∀ j < i, (t.entry j).vpage ≠ e.vpage) :
    tlbProbe (tlbWrite t i e) e.vpage = some i := by
  refine firstIdx_eq_some.mpr ⟨Nat.zero_le i, by omega, ?_, fun j _ hj => ?_⟩
  · simp [tlbWrite_entry]
  · simpa [tlbWrite_entry, Nat.ne_of_lt hj] using hbefore j hj

/-- **After `tlbW` the processor translates the page.** -/
theorem lookup_tlbW (fa paddr write : ℕ) (h : t.nextVictim < numTlb) :
    (tlbW t fa paddr write).lookup fa = some ⟨fa, paddr, 0 < write, true⟩ := by
  have hfound : ∀ {u : Tlb} {i : ℕ}, i < numTlb → (∀ j < i, (u.entry j).vpage ≠ fa) →
      (tlbWrite u i ⟨fa, paddr, 0 < write, true⟩).lookup fa =
        some ⟨fa, paddr, 0 < write, true⟩ := by
    intro u i hi hbefore
    have hp := tlbProbe_tlbWrite (e := ⟨fa, paddr, 0 < write, true⟩) hi hbefore
    simp [Tlb.lookup, hp, tlbWrite_entry]
  unfold tlbW
  simp only
  split
  · next i hi =>
    have := firstIdx_eq_some.mp hi
    exact hfound (tlbProbe_some hi).1 fun j hj => by simpa using this.2.2.2 j (Nat.zero_le j) hj
  · next hnone =>
    have hno := tlbProbe_none hnone
    split
    · next i hi =>
      have hlt := (firstIdx_some hi).1
      exact hfound hlt fun j hj => hno j (by omega)
    · exact hfound h fun j hj => hno j (Nat.lt_trans hj h)

theorem Tlb.Wf.tlbW (h : t.Wf) (hv : fa < userspaceTop) : (tlbW t fa paddr write).Wf := by
  obtain ⟨t₁, i, he, hent, hnext, hother⟩ := tlbW_cases t fa paddr write
  have hwf : t₁.Wf := ⟨by rw [hent]; exact h.unique, by rw [hent]; exact h.user, hnext h.victim⟩
  rw [he]
  exact hwf.tlbWrite hv (by rw [hent]; exact hother h)

theorem of_maps_tlbW (hm : (tlbW t fa paddr write).Maps v f d) :
    (v = fa ∧ f = paddr ∧ d = decide (0 < write)) ∨ t.Maps v f d := by
  obtain ⟨t₁, i, he, hent, -⟩ := tlbW_cases t fa paddr write
  rw [he] at hm
  refine (Tlb.maps_write hm).imp_right ?_
  rintro ⟨j, hj, -, hold⟩
  exact ⟨j, hj, by rw [← hent]; exact hold⟩

theorem nextVictim_tlbW (h : t.nextVictim < numTlb) :
    (tlbW t fa paddr write).nextVictim < numTlb := by
  obtain ⟨t₁, i, he, -, hnext, -⟩ := tlbW_cases t fa paddr write
  rw [he]
  exact hnext h

/-- After `tlbW` the page has the mapping that was entered, and the others are old ones. -/
theorem maps_tlbW (h : t.Wf) (hm : (tlbW t fa paddr write).Maps v f d) :
    (v = fa ∧ f = paddr ∧ d = decide (0 < write)) ∨ (v ≠ fa ∧ t.Maps v f d) := by
  obtain ⟨t₁, i, he, hent, -, hother⟩ := tlbW_cases t fa paddr write
  rw [he] at hm
  rcases Tlb.maps_write hm with hnew | ⟨j, hj, hji, hold⟩
  · exact .inl hnew
  · rw [hent] at hold
    refine .inr ⟨fun hv => hother h j hj hji ?_, j, hj, hold⟩
    rw [hold, hv]

/-- **`tlbR`**: there is no entry for the victim, or it makes way for the page. -/
theorem tlbR_cases (t : Tlb) (victim fa paddr : ℕ) :
    (tlbR t victim fa paddr = t ∧ ∀ j < numTlb, (t.entry j).vpage ≠ victim) ∨
    ∃ x < numTlb, (t.entry x).vpage = victim ∧
      tlbR t victim fa paddr = tlbWrite t x ⟨fa, paddr, true, true⟩ := by
  unfold tlbR
  split
  · next x hx =>
    obtain ⟨hlt, hv⟩ := tlbProbe_some hx
    exact .inr ⟨x, hlt, hv, rfl⟩
  · next hnone => exact .inl ⟨rfl, tlbProbe_none hnone⟩

theorem Tlb.Wf.tlbR (h : t.Wf) (hv : fa < userspaceTop) (hno : ∀ f d, ¬ t.Maps fa f d) :
    (tlbR t victim fa paddr).Wf := by
  rcases tlbR_cases t victim fa paddr with
    ⟨he, -⟩ | ⟨x, -, -, he⟩
  · rw [he]
    exact h
  · rw [he]
    refine h.tlbWrite hv fun j hj _ hje => hno (t.entry j).ppage (t.entry j).dirty ⟨j, hj, ?_⟩
    have hvalid := (h.user j hj).mpr (by rw [hje]; exact hv)
    rw [← hje, ← hvalid]

theorem of_maps_tlbR (hm : (tlbR t victim fa paddr).Maps v f d) :
    (v = fa ∧ f = paddr ∧ d = true) ∨ t.Maps v f d := by
  rcases tlbR_cases t victim fa paddr with
    ⟨he, -⟩ | ⟨x, -, -, he⟩
  · rw [he] at hm
    exact .inr hm
  · rw [he] at hm
    refine (Tlb.maps_write hm).imp_right ?_
    rintro ⟨j, hj, -, hold⟩
    exact ⟨j, hj, hold⟩

@[simp] theorem nextVictim_tlbR : (tlbR t victim fa paddr).nextVictim = t.nextVictim := by
  rcases tlbR_cases t victim fa paddr with
    ⟨he, -⟩ | ⟨x, -, -, he⟩
  · rw [he]
  · rw [he]
    rfl

/-- After `tlbR` the victim has no entry. -/
theorem maps_tlbR (h : t.Wf) (hm : (tlbR t victim fa paddr).Maps v f d) :
    (v = fa ∧ f = paddr ∧ d = true) ∨ (v ≠ victim ∧ t.Maps v f d) := by
  rcases tlbR_cases t victim fa paddr with
    ⟨he, hno⟩ | ⟨x, hx, hxv, he⟩
  · rw [he] at hm
    obtain ⟨j, hj, hje⟩ := hm
    refine .inr ⟨fun hv => hno j hj ?_, j, hj, hje⟩
    rw [hje, hv]
  · rw [he] at hm
    rcases Tlb.maps_write hm with hnew | ⟨j, hj, hjx, hold⟩
    · exact .inl hnew
    · refine .inr ⟨fun hv => hjx (h.unique j hj x hx ?_), j, hj, hold⟩
      rw [hold, hxv, hv]

theorem tlbFlush_entry (hi : i < numTlb) : (tlbFlush t).entry i = tlbInvalid i := by
  refine (forRange_update (fun i _ => tlbInvalid i) numTlb 0 t.entry i).trans (if_pos ?_)
  omega

/-- After a flush nothing is mapped. -/
theorem not_maps_tlbFlush : ¬ (tlbFlush t).Maps v f d := by
  rintro ⟨i, hi, he⟩
  rw [tlbFlush_entry hi, tlbInvalid] at he
  cases he

theorem Tlb.Wf.flush (h : t.nextVictim < numTlb) : (tlbFlush t).Wf := by
  refine ⟨fun i hi j hj he => ?_, fun i hi => ?_, h⟩
  · rw [tlbFlush_entry hi, tlbFlush_entry hj] at he
    simp only [tlbInvalid] at he
    unfold pageSize at he
    omega
  · rw [tlbFlush_entry hi]
    simp [tlbInvalid, userspaceTop]

end Lemmas

end Os161
