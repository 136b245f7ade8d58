import Os161.Vm.Addrspace

set_option autoImplicit false

/-!
# The entry of a page

The entry of the page table that `vm_fault` uses for a page is the one that its two searches find.
Other entries may be for the same page where regions overlap.

* `Addrspace.lookup`: the position of the entry.
* `Addrspace.InMem`, `Addrspace.NotInMem`: what the entry says, with one lemma for each change to the
  page table.
* **`Addrspace.lookup_extend`**: a new region without an old page leaves the entries of the old ones.
-/

namespace Os161

open Loop

namespace Addrspace

/-- The position of the entry that `vm_fault` finds. -/
def lookup (as : Addrspace) (fa : ℕ) : Option ℕ :=
  (findSegment as fa).bind fun seg => findPte as seg fa

/-- The page is in memory at frame `f`. -/
def InMem (as : Addrspace) (v f : ℕ) : Prop :=
  ∃ j e, as.lookup v = some j ∧ as.pt[j]? = some e ∧ e.inMem = true ∧ e.frame = f

/-- The page is not in memory. -/
def NotInMem (as : Addrspace) (v : ℕ) : Prop :=
  ∃ j e, as.lookup v = some j ∧ as.pt[j]? = some e ∧ e.inMem = false

section Lemmas

variable {as as' : Addrspace} {v w f f' j page paddr : ℕ} {seg : SegmentEntry} {pt : List PtEntry}
  {e : PtEntry}

theorem lookup_eq_some :
    as.lookup v = some j ↔ ∃ seg, findSegment as v = some seg ∧ findPte as seg v = some j :=
  Option.bind_eq_some_iff

/-- The entry that is found is for the page. -/
theorem page_of_lookup (h : as.lookup v = some j) (he : as.pt[j]? = some e) : e.page = v := by
  obtain ⟨seg, -, hj⟩ := lookup_eq_some.mp h
  obtain ⟨-, -, e', he', hp⟩ := findPte_some hj
  rw [he] at he'
  cases he'
  exact hp

theorem InMem.unique (h : as.InMem v f) (h' : as.InMem v f') : f = f' := by
  obtain ⟨j, e, hj, he, -, rfl⟩ := h
  obtain ⟨j', e', hj', he', -, rfl⟩ := h'
  rw [hj] at hj'
  cases hj'
  rw [he] at he'
  cases he'
  rfl

theorem InMem.absurd (h : as.InMem v f) (h' : as.NotInMem v) : False := by
  obtain ⟨j, e, hj, he, hin, -⟩ := h
  obtain ⟨j', e', hj', he', hno⟩ := h'
  rw [hj] at hj'
  cases hj'
  rw [he] at he'
  cases he'
  rw [hin] at hno
  cases hno

theorem InMem.ne (h : as.InMem v f) (h' : as.NotInMem w) : v ≠ w := by
  rintro rfl
  exact h.absurd h'

/-- The searches read only the segments and the pages. -/
theorem findPte_congr (hpages : as'.pages = as.pages) : findPte as' seg v = findPte as seg v := by
  have hlen : as'.pt.length = as.pt.length := by
    have := congrArg List.length hpages
    simpa [pages] using this
  have hget : ∀ j : ℕ, (as'.pt[j]?).map PtEntry.page = (as.pt[j]?).map PtEntry.page := fun j => by
    rw [← List.getElem?_map, ← List.getElem?_map]
    exact congrArg (fun l : List ℕ => l[j]?) hpages
  unfold findPte firstPte
  simp only [hlen, hget]

theorem lookup_congr (as as' : Addrspace) (hseg : as'.segments = as.segments)
    (hpages : as'.pages = as.pages) :
    as'.lookup v = as.lookup v := by
  unfold lookup findSegment
  rw [hseg]
  simp only [findPte_congr hpages]

@[simp] theorem lookup_ptUpdate :
    lookup { as with pt := ptUpdate as.pt w } v = as.lookup v :=
  lookup_congr _ { as with pt := ptUpdate as.pt w } rfl map_page_ptUpdate

@[simp] theorem lookup_ptSetFrame :
    lookup { as with pt := ptSetFrame as.pt j paddr } v = as.lookup v :=
  lookup_congr _ { as with pt := ptSetFrame as.pt j paddr } rfl map_page_ptSetFrame

theorem getElem?_ptUpdate (he : pt[j]? = some e) (hne : e.page ≠ w) :
    (ptUpdate pt w)[j]? = some e := by
  induction pt generalizing j with
  | nil => cases he
  | cons e' pt ih =>
    rw [ptUpdate]
    cases j with
    | zero =>
      obtain rfl : e' = e := by simpa using he
      rw [if_neg hne]
      rfl
    | succ j =>
      have he' : pt[j]? = some e := by simpa using he
      split_ifs
      · exact he'
      · exact ih he'

theorem inMem_ptUpdate_eq_false (he : pt[j]? = some e) (hin : e.inMem = false) :
    ∃ e', (ptUpdate pt w)[j]? = some e' ∧ e'.inMem = false := by
  induction pt generalizing j with
  | nil => cases he
  | cons e' pt ih =>
    rw [ptUpdate]
    cases j with
    | zero =>
      obtain rfl : e' = e := by simpa using he
      split_ifs
      · exact ⟨_, rfl, rfl⟩
      · exact ⟨_, rfl, hin⟩
    | succ j =>
      have he' : pt[j]? = some e := by simpa using he
      split_ifs
      · exact ⟨e, he', hin⟩
      · exact ih he'

theorem InMem.ptUpdate (h : as.InMem v f) (hne : v ≠ w) :
    InMem { as with pt := ptUpdate as.pt w } v f := by
  obtain ⟨j, e, hj, he, hin, hf⟩ := h
  refine ⟨j, e, lookup_ptUpdate.trans hj, getElem?_ptUpdate he ?_, hin, hf⟩
  rw [page_of_lookup hj he]
  exact hne

theorem NotInMem.ptUpdate (h : as.NotInMem v) : NotInMem { as with pt := ptUpdate as.pt w } v := by
  obtain ⟨j, e, hj, he, hin⟩ := h
  obtain ⟨e', he', hin'⟩ := inMem_ptUpdate_eq_false (w := w) he hin
  exact ⟨j, e', lookup_ptUpdate.trans hj, he', hin'⟩

theorem getElem?_ptSetFrame_ne {i : ℕ} (h : i ≠ j) : (ptSetFrame pt j paddr)[i]? = pt[i]? := by
  unfold ptSetFrame
  rw [List.getElem?_modify]
  simp [h.symm]

theorem getElem?_ptSetFrame_self (he : pt[j]? = some e) :
    (ptSetFrame pt j paddr)[j]? = some { e with frame := paddr, inMem := true, inSwap := false } := by
  unfold ptSetFrame
  rw [List.getElem?_modify, he]
  simp

theorem InMem.ptSetFrame (h : as.InMem v f) (hj : as.lookup page = some j) (hne : v ≠ page) :
    InMem { as with pt := ptSetFrame as.pt j paddr } v f := by
  obtain ⟨i, e, hi, he, hin, hf⟩ := h
  refine ⟨i, e, lookup_ptSetFrame.trans hi, ?_, hin, hf⟩
  rw [getElem?_ptSetFrame_ne]
  · exact he
  · rintro rfl
    obtain ⟨seg, -, hs⟩ := lookup_eq_some.mp hj
    obtain ⟨-, -, e', he', hp⟩ := findPte_some hs
    rw [he] at he'
    cases he'
    exact hne ((page_of_lookup hi he).symm.trans hp)

theorem inMem_ptSetFrame (paddr : ℕ) (hj : as.lookup page = some j) :
    InMem { as with pt := ptSetFrame as.pt j paddr } page paddr := by
  obtain ⟨seg, -, hs⟩ := lookup_eq_some.mp hj
  obtain ⟨-, -, e, he, -⟩ := findPte_some hs
  exact ⟨j, _, lookup_ptSetFrame.trans hj, getElem?_ptSetFrame_self he, rfl, rfl⟩

/-! ## New regions -/

/-- A search of a later part of an array. -/
theorem firstIdx_shift (p : ℕ → Bool) (m lo n : ℕ) :
    firstIdx p (m + lo) n = (firstIdx (fun i => p (m + i)) lo n).map (m + ·) := by
  induction n generalizing lo with
  | zero => rfl
  | succ n ih =>
    rw [firstIdx, firstIdx]
    split_ifs
    · rfl
    · exact ih (lo + 1)

/-- The segments of the old pages are found as before. -/
theorem findSegment_extend {seg₀ : SegmentEntry} {new : List PtEntry}
    (h : Linked as.segments as.pages) (hseg : as'.segments = seg :: as.segments)
    (hpt : as'.pt = new ++ as.pt) (hform : seg.Formed) (hchain : new.map PtEntry.page = seg.chain)
    (hnd : as'.pages.Nodup) (hv : pageSize ∣ v) (hfind : findSegment as v = some seg₀) :
    findSegment as' v = some seg₀ := by
  obtain ⟨pre, rest, hpages, -, -, hmem⟩ := h.find hv hfind
  have hno : ¬ seg.covers v = true := fun hc => by
    have hdis : List.Disjoint seg.chain as.pages := by
      rw [pages, hpt, List.map_append, hchain] at hnd
      exact List.disjoint_of_nodup_append hnd
    refine hdis (hform.mem_chain hv hc) ?_
    rw [hpages]
    exact List.mem_append_left _ (List.mem_append_right _ hmem)
  unfold findSegment at hfind ⊢
  rw [hseg, List.find?_cons, Bool.eq_false_iff.mpr hno]
  exact hfind

/-- **A new region leaves the entries of the old pages**, if no page is listed twice then. -/
theorem lookup_extend {new : List PtEntry} (h : Linked as.segments as.pages)
    (hseg : as'.segments = seg :: as.segments) (hpt : as'.pt = new ++ as.pt) (hform : seg.Formed)
    (hchain : new.map PtEntry.page = seg.chain) (hnd : as'.pages.Nodup) (hv : pageSize ∣ v)
    (hj : as.lookup v = some j) : as'.lookup v = some (new.length + j) := by
  obtain ⟨seg₀, hfind, hs⟩ := lookup_eq_some.mp hj
  obtain ⟨pre, rest, hpages, -, hfirst, -⟩ := h.find hv hfind
  have hlen : as.pt.length = pre.length + seg₀.npages + rest.length := by
    have := congrArg List.length hpages
    simpa [pages, Nat.add_assoc] using this
  have hstart : firstPte as' seg₀ = new.length + firstPte as seg₀ := by
    unfold firstPte
    rw [hpt, List.length_append]
    omega
  refine lookup_eq_some.mpr
    ⟨seg₀, findSegment_extend h hseg hpt hform hchain hnd hv hfind, ?_⟩
  unfold findPte at hs ⊢
  rw [hstart, firstIdx_shift]
  simp only [hpt, List.getElem?_append_right (Nat.le_add_right _ _), Nat.add_sub_cancel_left]
  rw [hs]
  rfl

theorem InMem.extend {new : List PtEntry} (hin : as.InMem v f) (h : Linked as.segments as.pages)
    (hseg : as'.segments = seg :: as.segments) (hpt : as'.pt = new ++ as.pt) (hform : seg.Formed)
    (hchain : new.map PtEntry.page = seg.chain) (hnd : as'.pages.Nodup) (hv : pageSize ∣ v) :
    as'.InMem v f := by
  obtain ⟨j, e, hj, he, hmem, hf⟩ := hin
  refine ⟨_, e, lookup_extend h hseg hpt hform hchain hnd hv hj, ?_, hmem, hf⟩
  rw [hpt, List.getElem?_append_right (Nat.le_add_right _ _), Nat.add_sub_cancel_left]
  exact he

end Lemmas

end Addrspace

end Os161
