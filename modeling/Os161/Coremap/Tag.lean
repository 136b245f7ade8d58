import Os161.Coremap.Live

set_option autoImplicit false

/-!
# The frames of an address space

What an address space can see of the coremap: the frames tagged with it, each with its page and
state, and the frames it is replacing.

* `CmSys.tag`: the tag of a frame; `CmSys.Holds`: the frame is the address space's.
* One lemma for each operation says how it changes the tags.
* **`CmSys.OnlyOf`**: an operation of an address space leaves the tags of all others.
-/

namespace Os161

/-- The address space, the page and the state of a frame that is tagged. -/
def CmSys.tag (s : CmSys) (k : ℕ) : Option (AsId × ℕ × FrameState) :=
  if k < s.cm.ramFrames then
    (s.cm.entry k).as.map fun as => (as, (s.cm.entry k).virtAddr, (s.cm.entry k).state)
  else none

/-- Frame `k` belongs to the address space: it is tagged with it or in the middle of a
replacement by it. -/
def CmSys.Holds (s : CmSys) (as : AsId) (k : ℕ) : Prop :=
  (∃ v st, s.tag k = some (as, v, st)) ∨ (as, k) ∈ s.pending

/-- What a step of `as` may do to the coremap: the tags and replacements of the others stay. -/
structure CmSys.OnlyOf (as : AsId) (s s' : CmSys) : Prop where
  ram : s'.cm.ram = s.cm.ram
  tag : ∀ as' ≠ as, ∀ k v st, s'.tag k = some (as', v, st) ↔ s.tag k = some (as', v, st)
  pending : ∀ as' ≠ as, ∀ k, (as', k) ∈ s'.pending ↔ (as', k) ∈ s.pending

section Tag

variable {s s' : CmSys} {as as' : AsId} {k v vaddr paddr pos n : ℕ} {st : FrameState}

theorem CmSys.tag_eq_some :
    s.tag k = some (as, v, st) ↔ k < s.cm.ramFrames ∧ (s.cm.entry k).as = some as ∧
      (s.cm.entry k).virtAddr = v ∧ (s.cm.entry k).state = st := by
  unfold tag
  split_ifs with hk
  · cases has : (s.cm.entry k).as with
    | none => simp
    | some a => simp [hk]
  · simp [hk]

/-- The same entry has the same tag. -/
theorem CmSys.tag_congr (hram : s'.cm.ram = s.cm.ram)
    (he : k < s.cm.ramFrames → s'.cm.entry k = s.cm.entry k) : s'.tag k = s.tag k := by
  have hF : s'.cm.ramFrames = s.cm.ramFrames := by unfold Coremap.ramFrames; rw [hram]
  unfold tag
  rw [hF]
  split_ifs with hk
  · rw [he hk]
  · rfl

/-- An entry without an owner has no tag. -/
theorem CmSys.tag_of_as (h : k < s.cm.ramFrames → (s.cm.entry k).as = none) : s.tag k = none := by
  unfold tag
  split_ifs with hk
  · rw [h hk]
    rfl
  · rfl

theorem CmSys.tag_boot (ram : RamLayout) (g : ℕ → CmEntry) : (CmSys.boot ram g).tag k = none := by
  refine tag_of_as fun hk => ?_
  rw [boot_cm] at hk ⊢
  unfold Coremap.ramFrames at hk
  rw [cmBootstrap_ram] at hk
  exact (cmBootstrap_entry hk).1

/-- A tagged frame is `LOADING` or `CLEAN`. -/
theorem CmInv.state_of_tag (h : CmInv s) (ht : s.tag k = some (as, v, st)) :
    st = .loading ∨ st = .clean := by
  obtain ⟨hk, has, -, rfl⟩ := CmSys.tag_eq_some.mp ht
  exact (h.of_tagged hk has).2.2.2

theorem CmInv.tag_of_pending (h : CmInv s) (hp : (as, k) ∈ s.pending) : s.tag k = none :=
  CmSys.tag_of_as fun _ => by rw [(h.of_pending hp).2]; rfl

theorem CmInv.not_pending_of_tag (h : CmInv s) (ht : s.tag k = some (as, v, st)) (as' : AsId) :
    (as', k) ∉ s.pending := fun hp => by
  rw [h.tag_of_pending hp] at ht
  cases ht

/-- **A frame belongs to one address space.** -/
theorem CmInv.holds_unique (h : CmInv s) (h₁ : s.Holds as k) (h₂ : s.Holds as' k) : as = as' := by
  rcases h₁ with ⟨v, st, ht⟩ | hp <;> rcases h₂ with ⟨v', st', ht'⟩ | hp'
  · rw [ht] at ht'
    cases ht'
    rfl
  · exact absurd hp' (h.not_pending_of_tag ht _)
  · exact absurd hp (h.not_pending_of_tag ht' _)
  · exact h.pending_unique hp hp'

theorem CmInv.lt_of_holds' (h : CmInv s) (hk : s.Holds as k) : k < s.cm.ramFrames := by
  rcases hk with ⟨v, st, ht⟩ | hp
  · exact (CmSys.tag_eq_some.mp ht).1
  · exact (h.of_pending hp).1

/-! ## The operations -/

theorem CmSys.tag_kalloc (h : CmInv s) (hs : s.kalloc n = (paddr, s')) : s'.tag k = s.tag k := by
  rcases kalloc_cases hs with ⟨-, rfl⟩ | ⟨f, -, -, hfree, hram, -, -, -, he⟩
  · rfl
  · by_cases hf : f ≤ k ∧ k < f + n
    · have hold : s.tag k = none :=
        tag_of_as fun hk => (h.of_free hk (hfree k hf.1 hf.2)).2.1
      rw [hold]
      exact tag_of_as fun _ => by rw [he, if_pos hf]; rfl
    · exact tag_congr hram fun _ => by rw [he, if_neg hf]

theorem CmSys.pending_kalloc (hs : s.kalloc n = (paddr, s')) : s'.pending = s.pending := by
  rcases kalloc_cases hs with ⟨-, rfl⟩ | ⟨f, -, -, -, -, -, hp, -⟩
  · rfl
  · exact hp

theorem CmSys.ram_kalloc (hs : s.kalloc n = (paddr, s')) : s'.cm.ram = s.cm.ram := by
  rcases kalloc_cases hs with ⟨-, rfl⟩ | ⟨f, -, -, -, hr, -⟩
  · rfl
  · exact hr

theorem CmSys.tag_kfree (h : CmInv s) {a : Alloc} (ha : a ∈ s.live) (ho : a.owner = none) :
    (s.kfree a).tag k = s.tag k := by
  by_cases hk : k < s.cm.ramFrames ∧ s.cm.ram.frameAddr k ∈ a.pages
  · have hok := (h.held a ha k (Alloc.holds_iff_mem.mpr hk.2)).2
    unfold EntryOk at hok
    simp only [ho] at hok
    have hold : s.tag k = none := tag_of_as fun _ => hok.2.1
    rw [hold]
    refine tag_of_as fun _ => ?_
    rw [kfree_entry h ha ho, if_pos hk]
    exact hok.2.1
  · exact tag_congr rfl fun _ => by rw [kfree_entry h ha ho, if_neg hk]

/-- **`frame_alloc`** fails without a `FREE` frame, or tags a frame that was nobody's. -/
theorem CmSys.tag_alloc (h : CmInv s) (hs : s.alloc vaddr as = (paddr, s')) :
    (paddr = 0 ∧ s' = s ∧ ∀ j < s.cm.ramFrames, (s.cm.entry j).state ≠ .free) ∨
    ∃ k, paddr = s.cm.ram.frameAddr k ∧ paddr ≠ 0 ∧ (∀ as', ¬ s.Holds as' k) ∧
      s'.cm.ram = s.cm.ram ∧ s'.pending = s.pending ∧
      ∀ j, s'.tag j = if j = k then some (as, vaddr, .loading) else s.tag j := by
  rcases alloc_cases hs with hfail | ⟨k, hp, hk, hfree, rfl⟩
  · exact .inl hfail
  · have htag : s.tag k = none := tag_of_as fun hk => (h.of_free hk hfree).2.1
    refine .inr ⟨k, hp, hp ▸ s.cm.ram.frameAddr_ne_zero k, ?_, rfl, rfl, fun j => ?_⟩
    · rintro as' (⟨v, st, ht⟩ | hpend)
      · rw [htag] at ht
        cases ht
      · rw [(h.of_pending hpend).2] at hfree
        cases hfree
    · split_ifs with hj
      · subst hj
        refine tag_eq_some.mpr ⟨hk, ?_⟩
        simp
      · exact tag_congr rfl fun _ => s.cm.setEntry_entry_ne _ hj

/-- **`cm_asfree`** removes the tags of the address space. -/
theorem CmSys.tag_asfree (h : CmInv s) :
    (s.asfree as).tag k = some (as', v, st) ↔ s.tag k = some (as', v, st) ∧ as' ≠ as := by
  have he : ∀ k < s.cm.ramFrames, (s.asfree as).cm.entry k = asfreeEntry as (s.cm.entry k) :=
    fun k hk => (cmAsfree_entry k).trans (if_pos hk)
  by_cases hown : k < s.cm.ramFrames ∧ (s.cm.entry k).as = some as
  · have hst := (h.of_tagged hown.1 hown.2).2.2.2
    have hfix : (s.cm.entry k).state ≠ .fixed := by
      rcases hst with e | e <;> rw [e] <;> exact FrameState.noConfusion
    have hnone : (s.asfree as).tag k = none := tag_of_as fun _ => by
      rw [he k hown.1, asfreeEntry, if_pos ⟨hown.2, hfix⟩]
    rw [hnone, tag_eq_some, hown.2]
    constructor
    · intro h
      cases h
    · rintro ⟨⟨-, has, -⟩, hne⟩
      exact absurd (Option.some.inj has).symm hne
  · have hsame : (s.asfree as).tag k = s.tag k := tag_congr rfl fun hk => by
      rw [he k hk, asfreeEntry, if_neg fun hc => hown ⟨hk, hc.1⟩]
    rw [hsame]
    refine (and_iff_left_of_imp fun ht => ?_).symm
    rintro rfl
    obtain ⟨hk, has, -⟩ := tag_eq_some.mp ht
    exact hown ⟨hk, has⟩

/-- **`cm_evict`** takes a `CLEAN` frame of the address space away from its page. -/
theorem CmSys.tag_evict (h : CmInv s) {victim : ℕ}
    (hs : s.evict as = some (victim, paddr, pos, s')) :
    paddr = s.cm.ram.frameAddr pos ∧ s.tag pos = some (as, victim, .clean) ∧
      s'.cm.ram = s.cm.ram ∧ s'.pending = (as, pos) :: s.pending ∧
      ∀ j, s'.tag j = if j = pos then none else s.tag j := by
  obtain ⟨hv, hp, hlt, has, hst, rfl⟩ := evict_cases h hs
  refine ⟨hp, tag_eq_some.mpr ⟨hlt, has, hv.symm, hst⟩, rfl, rfl, fun j => ?_⟩
  split_ifs with hj
  · subst hj
    exact tag_of_as fun _ => by simp [evictedEntry]
  · exact tag_congr rfl fun _ => s.cm.setEntry_entry_ne _ hj

/-- **`cm_update_vaddr`** gives the frame its new page. -/
theorem CmSys.tag_updateVaddr (vaddr : ℕ) (h : CmInv s) (hp : (as, pos) ∈ s.pending) (j : ℕ) :
    (s.updateVaddr as pos vaddr).tag j =
      if j = pos then some (as, vaddr, .loading) else s.tag j := by
  split_ifs with hj
  · subst hj
    refine tag_eq_some.mpr ⟨(h.of_pending hp).1, ?_⟩
    simp [updateVaddr, cmUpdateVaddr_entry]
  · exact tag_congr rfl fun _ => (cmUpdateVaddr_entry j).trans (if_neg hj)

theorem CmSys.mem_pending_updateVaddr (k : ℕ) :
    (as', k) ∈ (s.updateVaddr as pos vaddr).pending ↔
      (as', k) ∈ s.pending ∧ (as', k) ≠ (as, pos) := by
  change (as', k) ∈ s.pending.filter _ ↔ _
  rw [List.mem_filter, decide_eq_true_eq]

/-- **`cm_update_state(CLEAN)`** of a tagged frame. -/
theorem CmSys.tag_setClean (ht : s.tag k = some (as, v, st)) (j : ℕ) :
    (s.setClean (s.cm.ram.frameAddr k)).tag j =
      if j = k then some (as, v, .clean) else s.tag j := by
  obtain ⟨hk, has, hv, -⟩ := tag_eq_some.mp ht
  split_ifs with hj
  · subst hj
    refine tag_eq_some.mpr ⟨hk, ?_⟩
    simp [setClean, cmUpdateState_entry hk, has, hv]
  · exact tag_congr rfl fun _ => (cmUpdateState_entry hk j).trans (if_neg hj)

/-! ## What an address space keeps -/

theorem CmSys.holds_alloc (h : CmInv s) (hs : s.alloc vaddr as = (paddr, s')) (hk : s.Holds as k) :
    s'.Holds as k := by
  rcases tag_alloc h hs with ⟨-, rfl, -⟩ | ⟨k', -, -, hno, -, hpend, htag⟩
  · exact hk
  · rcases hk with ⟨v, st, ht⟩ | hp
    · refine .inl ⟨v, st, ?_⟩
      rw [htag, if_neg]
      · exact ht
      · rintro rfl
        exact hno as (.inl ⟨v, st, ht⟩)
    · exact .inr (by rw [hpend]; exact hp)

theorem CmSys.holds_evict (h : CmInv s) {victim : ℕ}
    (hs : s.evict as = some (victim, paddr, pos, s')) (hk : s.Holds as k) : s'.Holds as k := by
  obtain ⟨-, -, -, hpend, htag⟩ := tag_evict h hs
  rcases hk with ⟨v, st, ht⟩ | hp
  · by_cases hkp : k = pos
    · exact .inr (by rw [hpend, hkp]; exact List.mem_cons_self)
    · exact .inl ⟨v, st, by rw [htag, if_neg hkp]; exact ht⟩
  · exact .inr (by rw [hpend]; exact List.mem_cons_of_mem _ hp)

theorem CmSys.holds_updateVaddr (h : CmInv s) (hp : (as, pos) ∈ s.pending) (hk : s.Holds as k) :
    (s.updateVaddr as pos vaddr).Holds as k := by
  by_cases hkp : k = pos
  · exact .inl ⟨vaddr, .loading, by rw [tag_updateVaddr _ h hp, if_pos hkp]⟩
  · rcases hk with ⟨v, st, ht⟩ | hpk
    · exact .inl ⟨v, st, by rw [tag_updateVaddr _ h hp, if_neg hkp]; exact ht⟩
    · exact .inr ((mem_pending_updateVaddr k).mpr ⟨hpk, fun he => hkp (Prod.mk.inj he).2⟩)

theorem CmSys.holds_setClean {k' : ℕ} (ht : s.tag k' = some (as, v, st)) (hk : s.Holds as k) :
    (s.setClean (s.cm.ram.frameAddr k')).Holds as k := by
  rcases hk with ⟨v', st', ht'⟩ | hp
  · by_cases hkk : k = k'
    · exact .inl ⟨v, .clean, by rw [tag_setClean ht, if_pos hkk]⟩
    · exact .inl ⟨v', st', by rw [tag_setClean ht, if_neg hkk]; exact ht'⟩
  · exact .inr hp

/-! ## The others -/

namespace CmSys.OnlyOf

theorem refl (as : AsId) (s : CmSys) : OnlyOf as s s :=
  ⟨rfl, fun _ _ _ _ _ => Iff.rfl, fun _ _ _ => Iff.rfl⟩

theorem holds (h : OnlyOf as s s') (hne : as' ≠ as) : s'.Holds as' k ↔ s.Holds as' k := by
  unfold Holds
  simp only [h.tag as' hne, h.pending as' hne]

/-- A change of one tag that was not another's and is not another's now. -/
theorem of_tag {p : ℕ} {t : Option (AsId × ℕ × FrameState)} (hram : s'.cm.ram = s.cm.ram)
    (hpend : ∀ as' ≠ as, ∀ k, (as', k) ∈ s'.pending ↔ (as', k) ∈ s.pending)
    (hold : ∀ as' v st, s.tag p = some (as', v, st) → as' = as)
    (hnew : ∀ as' v st, t = some (as', v, st) → as' = as)
    (htag : ∀ j, s'.tag j = if j = p then t else s.tag j) : OnlyOf as s s' := by
  refine ⟨hram, fun as' hne k v st => ?_, hpend⟩
  rw [htag]
  split_ifs with hk
  · subst hk
    exact ⟨fun h => absurd (hnew _ _ _ h) hne, fun h => absurd (hold _ _ _ h) hne⟩
  · exact Iff.rfl

theorem alloc (h : CmInv s) (hs : s.alloc vaddr as = (paddr, s')) : OnlyOf as s s' := by
  rcases tag_alloc h hs with ⟨-, rfl, -⟩ | ⟨k, -, -, hno, hram, hpend, htag⟩
  · exact refl as _
  · refine of_tag hram (fun _ _ _ => by rw [hpend]) (fun as' v st ht => ?_) (fun as' v st ht => ?_) htag
    · exact absurd (.inl ⟨v, st, ht⟩) (hno as')
    · cases ht
      rfl

theorem evict (h : CmInv s) {victim : ℕ} (hs : s.evict as = some (victim, paddr, pos, s')) :
    OnlyOf as s s' := by
  obtain ⟨-, hold, hram, hpend, htag⟩ := tag_evict h hs
  refine of_tag hram (fun as' hne k => ?_) (fun as' v st ht => ?_) (fun as' v st ht => ?_) htag
  · rw [hpend, List.mem_cons, or_iff_right]
    exact fun he => hne (Prod.mk.inj he).1
  · rw [hold] at ht
    cases ht
    rfl
  · cases ht

theorem updateVaddr (h : CmInv s) (hp : (as, pos) ∈ s.pending) :
    OnlyOf as s (s.updateVaddr as pos vaddr) := by
  refine of_tag rfl (fun as' hne k => ?_) (fun as' v st ht => ?_) (fun as' v st ht => ?_)
    (tag_updateVaddr _ h hp)
  · rw [mem_pending_updateVaddr, and_iff_left]
    exact fun he => hne (Prod.mk.inj he).1
  · rw [h.tag_of_pending hp] at ht
    cases ht
  · cases ht
    rfl

theorem setClean (ht : s.tag k = some (as, v, st)) :
    OnlyOf as s (s.setClean (s.cm.ram.frameAddr k)) := by
  refine of_tag rfl (fun _ _ _ => Iff.rfl) (fun as' v' st' ht' => ?_) (fun as' v' st' ht' => ?_)
    (tag_setClean ht)
  · rw [ht] at ht'
    cases ht'
    rfl
  · cases ht'
    rfl

theorem asfree (h : CmInv s) : OnlyOf as s (s.asfree as) := by
  refine ⟨rfl, fun as' hne k v st => ?_, fun _ _ _ => Iff.rfl⟩
  rw [tag_asfree h]
  exact and_iff_left hne

end CmSys.OnlyOf

end Tag

end Os161
