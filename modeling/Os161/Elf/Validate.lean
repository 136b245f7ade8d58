import Os161.Elf.FirstTouch

set_option autoImplicit false

/-!
# Which program files `load_elf` accepts

`load_elf` hands the fields of a `PT_LOAD` header to `as_define_region` as they are. Nothing checks
that the region stays in the user space or has a page at all.

* `ElfPhdr.HasPages`: when the rounding of `as_define_region` leaves a page (`regionPages_ne_zero`).
* `loadSegments_eq_ok`, `loadSegments_eq_undefined`: how the loop over the headers ends.
* **`loadChecked_iff`**: for which files the result of `load_elf` can be relied on.
-/

namespace Os161

/-- The region of the header does not wrap around and lies below `USERSPACETOP`. -/
def ElfPhdr.InUserSpace (ph : ElfPhdr) : Prop :=
  ph.pVaddr + ph.pMemsz ≤ wordSize ∧
    ∀ a, ph.pVaddr ≤ a → a < ph.pVaddr + ph.pMemsz → a < userspaceTop

/-- The length from the start of the first page on is positive and can be rounded up, on words. -/
def ElfPhdr.HasPages (ph : ElfPhdr) : Prop :=
  0 < wadd ph.pMemsz (pageOffset ph.pVaddr) ∧
    wadd ph.pMemsz (pageOffset ph.pVaddr) + (pageSize - 1) < wordSize

/-- The types of program headers that `load_elf` lets pass. -/
def ElfPhdr.Known (ph : ElfPhdr) : Prop := ph.pType ∈ skippedTypes ∨ ph.pType = ptLoad

/-- Program header `k` is there and its type is known. -/
def KnownHeader (file : List UInt8) (eh : ElfEhdr) (k : ℕ) : Prop :=
  ∃ ph, readPhdr file eh k = some ph ∧ ph.Known

/-- Program header `k`, if it is a `PT_LOAD` header, has `p`. -/
def LoadHeader (file : List UInt8) (eh : ElfEhdr) (k : ℕ) (p : ElfPhdr → Prop) : Prop :=
  ∀ ph, readPhdr file eh k = some ph → ph.pType = ptLoad → p ph

/-- The files on which `load_elf` behaves: if the executable header is accepted, every `PT_LOAD`
header behind headers of known types has a page, and where all headers are of known types, the
regions are in the user space. -/
def HeadersSafe (file : List UInt8) : Prop :=
  ∀ eh, readEhdr file = some eh → eh.accepted = true →
    (∀ i < eh.ePhnum, (∀ k < i, KnownHeader file eh k) →
      LoadHeader file eh i ElfPhdr.HasPages) ∧
    ((∀ k < eh.ePhnum, KnownHeader file eh k) →
      ∀ i < eh.ePhnum, LoadHeader file eh i ElfPhdr.InUserSpace)

/-- What a caller of `load_elf` relies on: success means that every region is in the user space and
that the pages of its segment cover it, and everything else is an error return. -/
def LoadChecked (file : List UInt8) : Prop :=
  ∀ (v : FileId) (blocks : ℕ → RegionBlocks),
    match loadElf file v blocks asCreate with
    | .ok (as, _) => ∀ ph, IsLoadHeader file ph → ph.InUserSpace ∧
        ∃ seg ∈ as.segments, ph.Describes seg ∧
          ∀ a, ph.pVaddr ≤ a → a < ph.pVaddr + ph.pMemsz → pageFrame a ∈ seg.chain
    | .error e => e = .enoexec

section Regions

variable {ph : ElfPhdr} {seg : SegmentEntry} {as : Addrspace} {b : RegionBlocks} {a : ℕ}

theorem regionPages_ne_zero : regionPages ph.pVaddr ph.pMemsz ≠ 0 ↔ ph.HasPages := by
  unfold ElfPhdr.HasPages regionPages pageFrame
  generalize hlen : wadd ph.pMemsz (pageOffset ph.pVaddr) = len
  have hlt : len < wordSize := by
    rw [← hlen]
    exact Nat.mod_lt _ (by decide)
  unfold wadd wordSize pageSize at *
  omega

theorem defineSegment_eq_none : defineSegment as ph b = none ↔ ¬ ph.HasPages := by
  rw [← regionPages_ne_zero, not_not]
  unfold defineSegment asDefineRegion
  simp only
  split_ifs with h <;> simp [h]

/-- A region in the user space, if it has any byte, is rounded without a wrap. -/
theorem ElfPhdr.InUserSpace.le (h : ph.InUserSpace) (hpos : 0 < ph.pMemsz) :
    ph.pVaddr + ph.pMemsz ≤ userspaceTop := by
  have := h.2 (ph.pVaddr + ph.pMemsz - 1) (by omega) (by omega)
  omega

/-- **The pages cover the region.** -/
theorem ElfPhdr.Describes.covers (hd : ph.Describes seg) (hu : ph.InUserSpace)
    (hlo : ph.pVaddr ≤ a) (hhi : a < ph.pVaddr + ph.pMemsz) : pageFrame a ∈ seg.chain := by
  have hend := hu.le (by omega)
  have htop : userspaceTop + 2 * pageSize ≤ wordSize := by decide
  have hn : regionPages ph.pVaddr ph.pMemsz = _ :=
    regionPages_eq (by have := Nat.mod_lt ph.pVaddr pageSize_pos; unfold pageOffset; omega)
  have hpage : pageFrame a = pageFrame ph.pVaddr +
      (a / pageSize - ph.pVaddr / pageSize) * pageSize := by
    unfold pageFrame userspaceTop kseg0 wordSize pageSize at *
    omega
  have hidx : a / pageSize - ph.pVaddr / pageSize < seg.npages := by
    rw [hd.npages, hn]
    unfold pageOffset pageSize
    omega
  have hneg : ¬ seg.offset < 0 := by
    rw [hd.offset]
    omega
  refine List.mem_map.mpr ⟨_, List.mem_range.mpr hidx, ?_⟩
  have hlt : a < wordSize := by omega
  have := pageFrame_le hlt
  rw [if_neg hneg, hd.firstAddr, wadd_of_lt (by omega), hpage]

end Regions

section Loop

variable {file : List UInt8} {eh : ElfEhdr} {n i : ℕ}

theorem knownHeader_of_read {ph : ElfPhdr} (h : readPhdr file eh i = some ph) :
    KnownHeader file eh i ↔ ph.Known := by
  unfold KnownHeader
  simp [h]

theorem loadHeader_of_read {ph : ElfPhdr} {p : ElfPhdr → Prop} (h : readPhdr file eh i = some ph) :
    LoadHeader file eh i p ↔ (ph.pType = ptLoad → p ph) := by
  unfold LoadHeader
  simp [h]

/-- Header `k` is passed by the loop. -/
def Passed (file : List UInt8) (eh : ElfEhdr) (k : ℕ) : Prop :=
  KnownHeader file eh k ∧ LoadHeader file eh k ElfPhdr.HasPages

/-- One iteration of the loop of `load_elf`. -/
theorem loadSegments_succ (blocks : ℕ → RegionBlocks) (n i : ℕ) (as : Addrspace) :
    (Passed file eh i ∧ ∃ as', loadSegments file eh blocks (n + 1) i as =
      loadSegments file eh blocks n (i + 1) as') ∨
    (¬ KnownHeader file eh i ∧ loadSegments file eh blocks (n + 1) i as = .error .enoexec) ∨
    (KnownHeader file eh i ∧ ¬ LoadHeader file eh i ElfPhdr.HasPages ∧
      loadSegments file eh blocks (n + 1) i as = .error .undefined) := by
  rw [loadSegments]
  cases hread : readPhdr file eh i with
  | none =>
    refine .inr (.inl ⟨?_, rfl⟩)
    rintro ⟨ph, hph, -⟩
    cases hread.symm.trans hph
  | some ph =>
    rw [Passed, loadHeader_of_read hread, knownHeader_of_read hread]
    simp only
    by_cases hskip : ph.pType ∈ skippedTypes
    · rw [if_pos hskip]
      refine .inl ⟨⟨.inl hskip, fun ht => ?_⟩, as, rfl⟩
      rw [ht] at hskip
      exact absurd hskip (by decide)
    · rw [if_neg hskip]
      by_cases hload : ph.pType = ptLoad
      · rw [if_pos hload]
        cases hdef : defineSegment as ph (blocks i) with
        | none =>
          exact .inr (.inr ⟨.inr hload, fun h => defineSegment_eq_none.mp hdef (h hload), rfl⟩)
        | some as' =>
          refine .inl ⟨⟨.inr hload, fun _ => ?_⟩, as', rfl⟩
          by_contra hno
          cases hdef.symm.trans (defineSegment_eq_none.mpr hno)
      · rw [if_neg hload]
        exact .inr (.inl ⟨fun h => h.elim hskip hload, rfl⟩)

/-- **The loop ends** at the last header exactly when it passes each. -/
theorem loadSegments_eq_ok (blocks : ℕ → RegionBlocks) (as : Addrspace) :
    (∃ as', loadSegments file eh blocks n i as = .ok as') ↔
      ∀ k, i ≤ k → k < i + n → Passed file eh k := by
  induction n generalizing i as with
  | zero =>
    refine ⟨fun _ k h₁ h₂ => by omega, fun _ => ⟨as, rfl⟩⟩
  | succ n ih =>
    rcases loadSegments_succ blocks n i as with
      ⟨hp, as', he⟩ | ⟨hk, he⟩ | ⟨-, hp, he⟩ <;> rw [he]
    · rw [ih]
      refine ⟨fun h k h₁ h₂ => ?_, fun h k h₁ h₂ => h k (by omega) (by omega)⟩
      by_cases e : k = i
      · rw [e]; exact hp
      · exact h k (by omega) (by omega)
    · simp only [reduceCtorEq, exists_false, false_iff]
      exact fun h => hk (h i (le_refl _) (by omega)).1
    · simp only [reduceCtorEq, exists_false, false_iff]
      exact fun h => hp (h i (le_refl _) (by omega)).2

/-- **The loop comes upon a region without pages** exactly when the headers before it are passed. -/
theorem loadSegments_eq_undefined (blocks : ℕ → RegionBlocks) (as : Addrspace) :
    loadSegments file eh blocks n i as = .error .undefined ↔
      ∃ k, i ≤ k ∧ k < i + n ∧ (∀ j, i ≤ j → j < k → Passed file eh j) ∧
        ¬ LoadHeader file eh k ElfPhdr.HasPages := by
  induction n generalizing i as with
  | zero =>
    simp only [loadSegments, reduceCtorEq, false_iff]
    rintro ⟨k, h₁, h₂, -⟩
    omega
  | succ n ih =>
    rcases loadSegments_succ blocks n i as with
      ⟨hp, as', he⟩ | ⟨hk, he⟩ | ⟨-, hp, he⟩ <;> rw [he]
    · rw [ih]
      constructor
      · rintro ⟨k, h₁, h₂, hall, hno⟩
        refine ⟨k, by omega, by omega, fun j hj hjk => ?_, hno⟩
        by_cases e : j = i
        · rw [e]; exact hp
        · exact hall j (by omega) hjk
      · rintro ⟨k, h₁, h₂, hall, hno⟩
        have hne : k ≠ i := fun e => hno (e ▸ hp.2)
        exact ⟨k, by omega, by omega, fun j hj => hall j (by omega), hno⟩
    · simp only [Except.error.injEq, reduceCtorEq, false_iff]
      rintro ⟨k, h₁, h₂, hall, hno⟩
      by_cases e : k = i
      · subst e
        exact hno fun ph hph ht => absurd ⟨ph, hph, .inr ht⟩ hk
      · exact absurd (hall i (le_refl _) (by omega)).1 hk
    · exact ⟨fun _ => ⟨i, le_refl _, by omega, fun j h₁ h₂ => by omega, hp⟩, fun _ => rfl⟩

/-- **Which files `load_elf` can be relied on for.** -/
theorem loadChecked_iff (file : List UInt8) : LoadChecked file ↔ HeadersSafe file := by
  constructor
  · intro h eh hread hacc
    have hrun : ∀ (v : FileId) (blocks : ℕ → RegionBlocks), loadElf file v blocks asCreate = do
        let as' ← loadSegments file eh blocks eh.ePhnum 0 asCreate
        return (asCompleteLoad as' v, eh.eEntry) := by
      intro v blocks
      unfold loadElf
      simp only [hread, if_pos hacc]
    have h' := h 0 fun _ => ⟨0, 0, id⟩
    rw [hrun] at h'
    have hpages : ∀ i, i < eh.ePhnum → (∀ k < i, KnownHeader file eh k) →
        LoadHeader file eh i ElfPhdr.HasPages := by
      intro i
      induction i using Nat.strong_induction_on with
      | _ i ih =>
        intro hi hknown
        by_contra hno
        have hund := (loadSegments_eq_undefined (n := eh.ePhnum) (i := 0)
          (fun _ => ⟨0, 0, id⟩) asCreate).mpr ⟨i, Nat.zero_le _, by omega, fun j _ hj => ⟨hknown j hj,
            ih j hj (by omega) fun k hk => hknown k (by omega)⟩, hno⟩
        rw [hund] at h'
        cases h'
    refine ⟨hpages, fun hknown i hi ph hph ht => ?_⟩
    obtain ⟨as', hok⟩ := (loadSegments_eq_ok (fun _ => ⟨0, 0, id⟩) asCreate).mpr
      fun k (_ : 0 ≤ k) (hk : k < 0 + eh.ePhnum) =>
        ⟨hknown k (by omega), hpages k (by omega) fun j hj => hknown j (by omega)⟩
    rw [hok] at h'
    exact (h' ph ⟨eh, i, hread, hi, hph, ht⟩).1
  · intro h v blocks
    unfold loadElf
    cases hread : readEhdr file with
    | none => rfl
    | some eh =>
      simp only
      by_cases hacc : eh.accepted = true
      · rw [if_pos hacc]
        obtain ⟨hpages, huser⟩ := h eh hread hacc
        cases hrun : loadSegments file eh blocks eh.ePhnum 0 asCreate with
        | error e =>
          cases e with
          | enoexec => rfl
          | undefined =>
            obtain ⟨k, -, hk, hall, hno⟩ := (loadSegments_eq_undefined _ _).mp hrun
            exact absurd (hpages k (by omega) fun j hj => (hall j (Nat.zero_le _) hj).1) hno
        | ok as' =>
          have hpass := (loadSegments_eq_ok _ _).mp ⟨as', hrun⟩
          obtain ⟨-, -, hdesc⟩ := loadSegments_describes hrun Linked.nil
          rintro ph ⟨eh', i, hread', hi, hph, ht⟩
          obtain rfl : eh = eh' := Option.some.inj (hread.symm.trans hread')
          have hu := huser (fun k hk => (hpass k (Nat.zero_le _) (by omega)).1) i hi ph hph ht
          obtain ⟨seg, hseg, hd⟩ := hdesc i ph (Nat.zero_le _) (by omega) hph ht
          exact ⟨hu, seg, hseg, hd, fun a hlo hhi => hd.covers hu hlo hhi⟩
      · rw [if_neg hacc]

end Loop

/-- A program with one `PT_LOAD` header, for one byte of the file. -/
def oneHeaderFile (vaddr memsz : List UInt8) : List UInt8 :=
  [0x7f, 0x45, 0x4c, 0x46, 1, 2, 1, 0, 0, 0, 0, 0, 0, 0, 0, 0, 0, 2, 0, 8, 0, 0, 0, 1,
    0, 0x40, 0, 0, 0, 0, 0, 52, 0, 0, 0, 0, 0, 0, 0, 0, 0, 52, 0, 32, 0, 1, 0, 0, 0, 0, 0, 0,
    0, 0, 0, 1, 0, 0, 0, 84] ++ vaddr ++ [0, 0, 0, 0, 0, 0, 0, 1] ++ memsz ++
  [0, 0, 0, 6, 0, 0, 0x10, 0, 0xaa]

/-- **A region that wraps around is accepted, and one without a byte is not seen.** -/
theorem not_loadChecked_oneHeaderFile :
    ¬ LoadChecked (oneHeaderFile [0xff, 0xff, 0xf0, 0] [0, 0, 0x20, 0]) ∧
      ¬ LoadChecked (oneHeaderFile [0, 0x40, 0, 0] [0, 0, 0, 0]) := by
  refine ⟨fun h => ?_, fun h => ?_⟩
  · have hwrap : (⟨1, 84, 0xfffff000, 1, 0x2000, 6⟩ : ElfPhdr).InUserSpace :=
      (h 0 (fun _ => ⟨0, 0, id⟩) _ ⟨_, 0, rfl, by decide, by decide, rfl⟩).1
    exact absurd hwrap.1 (by decide)
  · have hempty : ElfError.undefined = .enoexec := h 0 fun _ => ⟨0, 0, id⟩
    cases hempty

end Os161
