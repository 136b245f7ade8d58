import Os161.Coremap.FirstFit
import Os161.Coremap.Live

set_option autoImplicit false

/-!
# `cm_evict` is first in, first out

The victim is found by its timestamp, from a counter of 32 bits that kernel allocations and the boot
advance as well. A history keeps, beside the coremap, when each frame got its page.

* `CmHistory`: the coremap, the number of operations and of timestamps so far, and for each frame the
  last assignment of a page.
* `Stamped`: a tagged entry has the page and the stamp of its last assignment.
* **`cmEvict_fifo`**: before the counter wraps, the victim is the own `CLEAN` frame whose page was
  assigned first.
* **`cmEvict_returns_iff`**: after any number of timestamps there is a victim exactly if some own
  `CLEAN` frame was stamped below the counter, modulo `2 ^ 32`.
* `not_cmEvict_returns`: a run of more than `2 ^ 32` timestamps after which there is none.
-/

namespace Os161

open Loop Transition

/-- The assignment of a page to a frame: the number of operations and of timestamps before it. -/
structure Assignment where
  time : ℕ
  serial : ℕ
  page : ℕ
  deriving DecidableEq

/-- The coremap with its history. -/
structure CmHistory where
  sys : CmSys
  time : ℕ
  issued : ℕ
  last : ℕ → Assignment

/-- The frame that an operation gives a page, and the page. -/
def CmAction.assigned (s : CmSys) : CmAction → Option (ℕ × ℕ)
  | .alloc vaddr as =>
    let paddr := (s.alloc vaddr as).1
    if paddr = 0 then none else some (s.cm.ram.frameIndex paddr, vaddr)
  | .updateVaddr _ pos vaddr => some (pos, vaddr)
  | _ => none

/-- The number of timestamps that an operation issues: one for a success. -/
def CmAction.issues (s : CmSys) : CmAction → ℕ
  | .kalloc n => if (s.kalloc n).1 = 0 then 0 else 1
  | .alloc vaddr as => if (s.alloc vaddr as).1 = 0 then 0 else 1
  | .updateVaddr _ _ _ => 1
  | _ => 0

/-- The history after one more assignment. -/
def CmHistory.assign (h : CmHistory) : Option (ℕ × ℕ) → ℕ → Assignment
  | some (k, page) => Function.update h.last k ⟨h.time, h.issued, page⟩
  | none => h.last

/-- One operation. -/
def CmHistory.step (h : CmHistory) (a : CmAction) : Except Stop CmHistory :=
  (h.sys.step a).map fun s =>
    ⟨s, h.time + 1, h.issued + a.issues h.sys, h.assign (a.assigned h.sys)⟩

/-- The boot issues one timestamp for each reserved frame. -/
def reservedCount (ram : RamLayout) : ℕ := (List.range ram.ramFrames).countP (reserved ram)

/-- After `cm_bootstrap`. -/
def CmHistory.boot (ram : RamLayout) (garbage : ℕ → CmEntry) : CmHistory :=
  ⟨CmSys.boot ram garbage, 0, reservedCount ram, fun _ => ⟨0, 0, 0⟩⟩

/-- A `CLEAN` frame of an address space. -/
def Coremap.OwnClean (cm : Coremap) (as : AsId) (k : ℕ) : Prop :=
  k < cm.ramFrames ∧ (cm.entry k).as = some as ∧ (cm.entry k).state = .clean

/-- **The timestamps tell the history.** -/
structure Stamped (h : CmHistory) : Prop where
  inv : CmInv h.sys
  counter : h.sys.cm.timestamp = h.issued % wordSize
  entry : ∀ k < h.sys.cm.ramFrames, (h.sys.cm.entry k).as ≠ none →
    (h.sys.cm.entry k).virtAddr = (h.last k).page ∧
      (h.sys.cm.entry k).timestamp = (h.last k).serial % wordSize ∧
        (h.last k).time < h.time ∧ (h.last k).serial < h.issued
  order : ∀ k < h.sys.cm.ramFrames, ∀ j < h.sys.cm.ramFrames, (h.sys.cm.entry k).as ≠ none →
    (h.sys.cm.entry j).as ≠ none → k ≠ j →
      ((h.last k).time < (h.last j).time ∧ (h.last k).serial < (h.last j).serial) ∨
        ((h.last j).time < (h.last k).time ∧ (h.last j).serial < (h.last k).serial)

/-! ## The boot -/

/-- The counter after the boot. -/
theorem cmBootstrap_timestamp (ram : RamLayout) (g : ℕ → CmEntry) :
    (cmBootstrap ram g).timestamp = reservedCount ram := by
  have hle := ram.ramFrames_le
  have h := forRange_inv (bootEntry ram)
    (fun m cm => m ≤ ram.ramFrames → cm.timestamp = (List.range m).countP (reserved ram))
    ram.ramFrames 0 ⟨ram, g, 0⟩ (fun _ => rfl) (fun i cm _ hi hcm hm => by
      have hcount : (List.range i).countP (reserved ram) ≤ i :=
        le_trans List.countP_le_length (by simp)
      rw [List.range_succ, List.countP_append, List.countP_singleton, ← hcm (by omega)]
      rw [← hcm (by omega)] at hcount
      unfold bootEntry
      by_cases hr : i ≤ ram.ramFrames * sizeofCmEntry / pageSize
      · have hres : reserved ram i = true := by simp [reserved, hr]; omega
        rw [if_pos hr, if_pos hres]
        exact wadd_of_lt (by unfold wordSize; simp only [Coremap.setEntry_timestamp]; omega)
      · have hres : ¬ reserved ram i = true := by simp [reserved, hr]
        rw [if_neg hr, if_neg hres]
        rfl)
  rw [Nat.zero_add] at h
  exact h (le_refl _)

theorem stamped_boot (ram : RamLayout) (g : ℕ → CmEntry) : Stamped (CmHistory.boot ram g) := by
  have hfree : ∀ k < (CmHistory.boot ram g).sys.cm.ramFrames,
      ((CmHistory.boot ram g).sys.cm.entry k).as = none := by
    intro k hk
    unfold CmHistory.boot at hk ⊢
    rw [CmSys.boot_cm, Coremap.ramFrames, cmBootstrap_ram] at hk
    rw [CmSys.boot_cm]
    exact (cmBootstrap_entry hk).1
  refine ⟨cmInv_boot ram g, ?_, fun k hk hne => absurd (hfree k hk) hne,
    fun k hk _ _ hne => absurd (hfree k hk) hne⟩
  have hle : reservedCount ram ≤ ram.ramFrames := le_trans List.countP_le_length (by simp)
  have := ram.ramFrames_le
  change (cmBootstrap ram g).timestamp = reservedCount ram % wordSize
  rw [cmBootstrap_timestamp, Nat.mod_eq_of_lt (by unfold wordSize; omega)]

/-! ## One operation -/

section Step

variable {h t : CmHistory}

/-- **An operation without an assignment** keeps pages and stamps of the frames that stay tagged. -/
theorem Stamped.keep (hs : Stamped h) (hinv : CmInv t.sys)
    (hram : t.sys.cm.ramFrames = h.sys.cm.ramFrames)
    (hcounter : t.sys.cm.timestamp = t.issued % wordSize) (hlast : t.last = h.last)
    (htime : h.time ≤ t.time) (hissued : h.issued ≤ t.issued)
    (hkeep : ∀ k < h.sys.cm.ramFrames, (t.sys.cm.entry k).as ≠ none →
      (t.sys.cm.entry k).as = (h.sys.cm.entry k).as ∧
        (t.sys.cm.entry k).virtAddr = (h.sys.cm.entry k).virtAddr ∧
          (t.sys.cm.entry k).timestamp = (h.sys.cm.entry k).timestamp) : Stamped t := by
  have htag : ∀ k < h.sys.cm.ramFrames, (t.sys.cm.entry k).as ≠ none →
      (h.sys.cm.entry k).as ≠ none := fun k hk hne => (hkeep k hk hne).1 ▸ hne
  refine ⟨hinv, hcounter, fun k hk hne => ?_, fun k hk j hj hk' hj' hne => ?_⟩
  · rw [hram] at hk
    obtain ⟨-, hv, hst⟩ := hkeep k hk hne
    obtain ⟨h₁, h₂, h₃, h₄⟩ := hs.entry k hk (htag k hk hne)
    rw [hv, hst, hlast]
    exact ⟨h₁, h₂, by omega, by omega⟩
  · rw [hram] at hk hj
    rw [hlast]
    exact hs.order k hk j hj (htag k hk hk') (htag j hj hj') hne

/-- **An assignment** is the latest one. -/
theorem Stamped.assign (hs : Stamped h) {k page : ℕ} {as : AsId} {st : FrameState} {n : ℕ}
    (hinv : CmInv t.sys)
    (hcm : t.sys.cm = (h.sys.cm.setEntry k ⟨some as, page, st, n, h.sys.cm.timestamp⟩).tick)
    (hlast : t.last = h.assign (some (k, page))) (htime : t.time = h.time + 1)
    (hissued : t.issued = h.issued + 1) : Stamped t := by
  have hentry : ∀ j ≠ k, t.sys.cm.entry j = h.sys.cm.entry j := fun j hj => by
    rw [hcm]; exact h.sys.cm.setEntry_entry_ne _ hj
  have hself : t.sys.cm.entry k = ⟨some as, page, st, n, h.sys.cm.timestamp⟩ := by
    rw [hcm]; exact h.sys.cm.setEntry_entry_self _ _
  have hlne : ∀ j ≠ k, t.last j = h.last j := fun j hj => by
    rw [hlast]; exact Function.update_of_ne hj _ _
  have hlself : t.last k = ⟨h.time, h.issued, page⟩ := by
    rw [hlast]; exact Function.update_self _ _ _
  have hram : t.sys.cm.ramFrames = h.sys.cm.ramFrames := by rw [hcm]; rfl
  refine ⟨hinv, ?_, fun j hj hne => ?_, fun i hi j hj hi' hj' hne => ?_⟩
  · rw [hcm, hissued]
    change wadd h.sys.cm.timestamp 1 = _
    rw [wadd, hs.counter, Nat.mod_add_mod]
  · rw [hram] at hj
    by_cases e : j = k
    · subst e
      rw [hself, hlself, htime, hissued]
      exact ⟨rfl, hs.counter, Nat.lt_succ_self _, Nat.lt_succ_self _⟩
    · rw [hentry j e] at hne ⊢
      obtain ⟨h₁, h₂, h₃, h₄⟩ := hs.entry j hj hne
      rw [hlne j e]
      exact ⟨h₁, h₂, by omega, by omega⟩
  · rw [hram] at hi hj
    by_cases ei : i = k
    · subst ei
      rw [hentry j (Ne.symm hne)] at hj'
      rw [hlself, hlne j (Ne.symm hne)]
      exact .inr (hs.entry j hj hj').2.2
    · rw [hentry i ei] at hi'
      by_cases ej : j = k
      · subst ej
        rw [hlself, hlne i ei]
        exact .inl (hs.entry i hi hi').2.2
      · rw [hentry j ej] at hj'
        rw [hlne i ei, hlne j ej]
        exact hs.order i hi j hj hi' hj' hne

/-- **Every operation keeps the stamps.** -/
theorem Stamped.step (hs : Stamped h) {a : CmAction} (hstep : h.step a = .ok t) : Stamped t := by
  obtain ⟨s, hs', rfl⟩ := map_eq_ok hstep
  have hinv : CmInv s := cmInv_step hs.inv hs'
  have hF : s.cm.ramFrames = h.sys.cm.ramFrames := by
    unfold Coremap.ramFrames
    rw [ram_step hs.inv hs']
  cases a with
  | kalloc n =>
    obtain ⟨-, hs'⟩ := require_bind_ok.mp hs'
    rcases hr : h.sys.kalloc n with ⟨paddr, s'⟩
    simp only [CmAction.issues, CmAction.assigned, hr] at hs' ⊢
    cases hs'
    rcases CmSys.kalloc_cases hr with ⟨rfl, rfl⟩ | ⟨f, rfl, -, -, -, -, -, hts, he⟩
    · exact hs.keep hinv hF hs.counter rfl (Nat.le_succ _) (Nat.le_refl _)
        fun _ _ _ => ⟨rfl, rfl, rfl⟩
    · refine hs.keep hinv hF ?_ rfl (Nat.le_succ _) (Nat.le_add_right _ _) fun k _ hne => ?_
      · rw [if_neg (h.sys.cm.ram.frameAddr_ne_zero f)]
        exact hts.trans (by rw [wadd, hs.counter, Nat.mod_add_mod])
      · simp only [he] at hne ⊢
        split_ifs at hne ⊢ with hf
        · exact absurd rfl hne
        · exact ⟨rfl, rfl, rfl⟩
  | alloc vaddr as =>
    rcases hr : h.sys.alloc vaddr as with ⟨paddr, s'⟩
    simp only [CmSys.step, CmAction.issues, CmAction.assigned, hr] at hs' ⊢
    cases hs'
    rcases CmSys.alloc_cases hr with ⟨rfl, rfl, -⟩ | ⟨k, rfl, hk, -, rfl⟩
    · exact hs.keep hinv hF hs.counter rfl (Nat.le_succ _) (Nat.le_refl _)
        fun _ _ _ => ⟨rfl, rfl, rfl⟩
    · have h0 := h.sys.cm.ram.frameAddr_ne_zero k
      have hlast : (h.assign (if h.sys.cm.ram.frameAddr k = 0 then none
          else some (h.sys.cm.ram.frameIndex (h.sys.cm.ram.frameAddr k), vaddr))) =
          h.assign (some (k, vaddr)) := by
        rw [if_neg h0, h.sys.cm.ram.frameIndex_frameAddr hk]
      exact hs.assign hinv rfl hlast rfl (by rw [if_neg h0])
  | kfree a =>
    obtain ⟨⟨ha, ho⟩, hs'⟩ := require_bind_ok.mp hs'
    cases hs'
    refine hs.keep hinv hF hs.counter rfl (Nat.le_succ _) (Nat.le_refl _) fun k hk hne => ?_
    simp only [kfree_entry hs.inv ha ho] at hne ⊢
    split_ifs with hf
    · -- the frame was the kernel's
      have hok := (hs.inv.held a ha k (Alloc.holds_iff_mem.mpr hf.2)).2
      unfold EntryOk at hok
      simp only [ho] at hok
      rw [if_pos hf] at hne
      exact absurd hok.2.1 hne
    · exact ⟨rfl, rfl, rfl⟩
  | asfree as =>
    cases hs'
    refine hs.keep hinv hF hs.counter rfl (Nat.le_succ _) (Nat.le_refl _) fun k hk hne => ?_
    have he : (h.sys.asfree as).cm.entry k = asfreeEntry as (h.sys.cm.entry k) :=
      (cmAsfree_entry k).trans (if_pos hk)
    rw [he] at hne ⊢
    unfold asfreeEntry at hne ⊢
    split_ifs with hf
    · rw [if_pos hf] at hne
      exact absurd rfl hne
    · exact ⟨rfl, rfl, rfl⟩
  | evict as =>
    simp only [CmSys.step] at hs'
    split at hs'
    · next hr =>
      cases hs'
      obtain ⟨-, -, -, -, -, rfl⟩ := CmSys.evict_cases hs.inv hr
      refine hs.keep hinv hF hs.counter rfl (Nat.le_succ _) (Nat.le_refl _) fun k hk hne => ?_
      simp only [Coremap.setEntry_entry] at hne ⊢
      split_ifs with hf
      · rw [if_pos hf] at hne
        exact absurd rfl hne
      · exact ⟨rfl, rfl, rfl⟩
    · cases hs'
  | updateVaddr as pos vaddr =>
    obtain ⟨-, hs'⟩ := require_bind_ok.mp hs'
    cases hs'
    exact hs.assign hinv rfl rfl rfl rfl
  | setClean as k =>
    obtain ⟨⟨hk, -, -⟩, hs'⟩ := require_bind_ok.mp hs'
    cases hs'
    refine hs.keep hinv hF hs.counter rfl (Nat.le_succ _) (Nat.le_refl _) fun j hj hne => ?_
    have he : (h.sys.setClean (h.sys.cm.ram.frameAddr k)).cm.entry j =
        if j = k then { h.sys.cm.entry k with state := .clean } else h.sys.cm.entry j :=
      cmUpdateState_entry hk j
    simp only [he]
    split_ifs with e
    · subst e
      exact ⟨rfl, rfl, rfl⟩
    · exact ⟨rfl, rfl, rfl⟩

end Step

/-! ## The victim -/

section Victim

variable {ram : RamLayout} {g : ℕ → CmEntry} {acts : List CmAction} {h : CmHistory} {as : AsId}
  {k : ℕ}

theorem stamped_run (hrun : run CmHistory.step (CmHistory.boot ram g) acts = .ok h) : Stamped h :=
  run_inv CmHistory.step (fun _ _ _ hs hstep => hs.step hstep) (stamped_boot ram g) hrun

/-- A candidate of `cm_evict` is an own `CLEAN` frame. -/
theorem CmInv.ownClean_iff {s : CmSys} (hi : CmInv s) :
    s.cm.OwnClean as k ↔ k < s.cm.ramFrames ∧ evictable s.cm as k = true := by
  unfold Coremap.OwnClean evictable
  rw [decide_eq_true_eq]
  refine and_congr_right fun hk => and_congr_right fun has => ?_
  constructor
  · intro hc
    rw [hc]
    exact ⟨FrameState.noConfusion, FrameState.noConfusion⟩
  · exact fun hc => (hi.of_tagged hk has).2.2.2.resolve_left hc.2

/-- **First in, first out.** Before the counter wraps, `cm_evict` takes the own `CLEAN` frame whose
page was assigned first, returns that page, the address and the index of the frame, and changes no
other entry. -/
theorem cmEvict_fifo (hrun : run CmHistory.step (CmHistory.boot ram g) acts = .ok h)
    (hissued : h.issued < wordSize) (hk : h.sys.cm.OwnClean as k) :
    ∃ pos cm', cmEvict h.sys.cm as =
        some ((h.last pos).page, h.sys.cm.ram.frameAddr pos, pos, cm') ∧
      h.sys.cm.OwnClean as pos ∧
      (∀ j, h.sys.cm.OwnClean as j → j ≠ pos → (h.last pos).time < (h.last j).time) ∧
      ∀ j ≠ pos, cm'.entry j = h.sys.cm.entry j := by
  have hs := stamped_run hrun
  have htag : ∀ {j}, h.sys.cm.OwnClean as j →
      j < h.sys.cm.ramFrames ∧ (h.sys.cm.entry j).as ≠ none := fun hj =>
    ⟨hj.1, by rw [hj.2.1]; exact Option.some_ne_none _⟩
  have hcounter : h.sys.cm.timestamp = h.issued := by
    rw [hs.counter, Nat.mod_eq_of_lt hissued]
  have hstamp : ∀ {j}, h.sys.cm.OwnClean as j →
      (h.sys.cm.entry j).timestamp = (h.last j).serial ∧ (h.last j).serial < h.issued := by
    intro j hj
    obtain ⟨-, hst, -, hlt⟩ := hs.entry j (htag hj).1 (htag hj).2
    exact ⟨by rw [hst, Nat.mod_eq_of_lt (lt_trans hlt hissued)], hlt⟩
  cases hev : cmEvict h.sys.cm as with
  | none =>
    have hle := cmEvict_eq_none.mp hev k hk.1 (hs.inv.ownClean_iff.mp hk).2
    have := hstamp hk
    omega
  | some r =>
    obtain ⟨pos, rfl, hpos, hcand, -, hmin⟩ := cmEvict_cases hev
    have hown : h.sys.cm.OwnClean as pos := hs.inv.ownClean_iff.mpr ⟨hpos, hcand⟩
    have hpage := (hs.entry pos (htag hown).1 (htag hown).2).1
    refine ⟨pos, _, by rw [hpage], hown, fun j hj hne => ?_, fun j hne =>
      h.sys.cm.setEntry_entry_ne _ hne⟩
    have hle := hmin j hj.1 (hs.inv.ownClean_iff.mp hj).2
    rw [(hstamp hown).1, (hstamp hj).1] at hle
    rcases hs.order pos hpos j hj.1 (htag hown).2 (htag hj).2 (Ne.symm hne) with hlt | hlt
    · exact hlt.1
    · omega

/-- Two pages of an address space. -/
def twoPages : List CmAction :=
  [.alloc 0x400000 7, .kalloc 1, .alloc 0x401000 7, .setClean 7 3, .setClean 7 1]

theorem cmEvict_fifo_twoPages :
    ∃ h, run CmHistory.step (CmHistory.boot smallRam fun _ => evictedEntry) twoPages = .ok h ∧
      h.issued < wordSize ∧ ∃ pos cm', cmEvict h.sys.cm 7 =
        some ((h.last pos).page, h.sys.cm.ram.frameAddr pos, pos, cm') :=
  ⟨_, rfl, by decide,
    (cmEvict_fifo (k := 3) (show run CmHistory.step (CmHistory.boot smallRam fun _ => evictedEntry)
      twoPages = .ok _ from rfl) (by decide) ⟨by decide, rfl, rfl⟩).imp
      fun _ => Exists.imp fun _ => And.left⟩

/-- One page of address space 7 is in memory and a frame is free. -/
structure Parked (n : ℕ) (s : CmSys) : Prop where
  inv : CmInv s
  ram : s.cm.ram = smallRam
  page : s.cm.entry 1 = ⟨some 7, 0x400000, .clean, 1, 1⟩
  others : ∀ k < s.cm.ramFrames, k ≠ 1 → (s.cm.entry k).as = none
  free : ∃ k < s.cm.ramFrames, (s.cm.entry k).state = .free
  counter : s.cm.timestamp = n % wordSize

/-- After the first touch of a page. -/
def onePage : CmSys :=
  ((CmSys.boot smallRam fun _ => evictedEntry).alloc 0x400000 7).2.setClean (smallRam.frameAddr 1)

theorem run_onePage : run CmSys.step (CmSys.boot smallRam fun _ => evictedEntry)
    [.alloc 0x400000 7, .setClean 7 1] = .ok onePage := rfl

theorem parked_onePage : Parked 2 onePage :=
  ⟨(cmInv_run run_onePage).1, rfl, by decide, by decide, ⟨2, by decide, by decide⟩, by decide⟩

/-- The kernel allocates a page and frees it again. -/
theorem Parked.kernelPage {n : ℕ} {s : CmSys} (h : Parked n s) :
    ∃ acts t, run CmSys.step s acts = .ok t ∧ Parked (n + 1) t := by
  obtain ⟨k, hk, hfree⟩ := h.free
  rcases hr : s.kalloc 1 with ⟨paddr, s₁⟩
  have hne : paddr ≠ 0 := by
    have hrun : s.cm.FreeRun 1 k := fun j h₁ h₂ => by rw [show j = k by omega]; exact hfree
    have hp : (frameKalloc s.cm 1).1 = paddr := congrArg Prod.fst hr
    rw [← hp]
    exact frameKalloc_ne_zero (le_refl 1) hk hrun
  rcases CmSys.kalloc_cases hr with ⟨h0, -⟩ | ⟨f, rfl, hf, hrun, hram, hlive, -, hts, he⟩
  · exact absurd h0 hne
  have hinv : CmInv s₁ := cmInv_kalloc h.inv (le_refl 1) hr
  have hf1 : f ≠ 1 := fun e => by
    have := hrun f (le_refl f) (Nat.lt_succ_self f)
    rw [e, h.page] at this
    cases this
  have ha : (⟨s.cm.ram.frameAddr f, 1, none⟩ : Alloc) ∈ s₁.live := by
    rw [hlive]
    exact List.mem_cons_self
  have hfreed : ∀ j, (s₁.kfree ⟨s.cm.ram.frameAddr f, 1, none⟩).cm.entry j =
      if j = f then kfreeEntry (kallocEntry s.cm f 1 f (s.cm.entry f)) else s.cm.entry j := by
    intro j
    have hholds : s₁.cm.ram.frameAddr j ∈ (⟨s.cm.ram.frameAddr f, 1, none⟩ : Alloc).pages ↔
        j = f := by
      rw [← Alloc.holds_iff_mem, Alloc.holds_iff (congrArg (fun r => r.frameAddr f) hram.symm)]
      change f ≤ j ∧ j < f + 1 ↔ j = f
      omega
    rw [kfree_entry hinv ha rfl, he]
    simp only [hholds]
    by_cases e : j = f
    · subst e
      have hlt : j < s₁.cm.ramFrames := by unfold Coremap.ramFrames; rw [hram]; exact hf
      rw [if_pos ⟨hlt, rfl⟩, if_pos rfl, if_pos ⟨le_refl _, Nat.lt_succ_self _⟩]
    · rw [if_neg (by tauto), if_neg e, if_neg (by omega)]
  refine ⟨[.kalloc 1, .kfree ⟨s.cm.ram.frameAddr f, 1, none⟩],
    s₁.kfree ⟨s.cm.ram.frameAddr f, 1, none⟩, ?_, cmInv_kfree hinv ha rfl, hram.trans h.ram, ?_, ?_,
    ⟨f, ?_, ?_⟩, ?_⟩
  · rw [run_cons, bind_eq_ok]
    refine ⟨s₁, require_bind_ok.mpr ⟨le_refl 1, by rw [hr]; rfl⟩, ?_⟩
    rw [run_cons, bind_eq_ok]
    exact ⟨_, require_bind_ok.mpr ⟨⟨ha, rfl⟩, rfl⟩, rfl⟩
  · rw [hfreed, if_neg (Ne.symm hf1)]
    exact h.page
  · intro j hj hne
    have hlt : j < s.cm.ramFrames := by
      change j < s₁.cm.ram.ramFrames at hj
      rwa [hram] at hj
    rw [hfreed]
    split_ifs
    · rfl
    · exact h.others j hlt hne
  · change f < s₁.cm.ram.ramFrames
    rw [hram]
    exact hf
  · rw [hfreed, if_pos rfl]
    rfl
  · change s₁.cm.timestamp = _
    rw [hts, wadd, h.counter, Nat.mod_add_mod]

/-- Any number of times. -/
theorem Parked.kernelPages {n : ℕ} {s : CmSys} (h : Parked n s) (m : ℕ) :
    ∃ acts t, run CmSys.step s acts = .ok t ∧ Parked (n + m) t := by
  induction m with
  | zero => exact ⟨[], s, rfl, h⟩
  | succ m ih =>
    obtain ⟨acts, t, ht, hp⟩ := ih
    obtain ⟨acts', u, hu, hp'⟩ := hp.kernelPage
    exact ⟨acts ++ acts', u, (run_append_ok _).mpr ⟨t, ht, hu⟩, hp'⟩

/-- A run of the coremap has a history. -/
theorem exists_history {acts : List CmAction} {h : CmHistory} {s : CmSys}
    (hrun : run CmSys.step h.sys acts = .ok s) :
    ∃ t, run CmHistory.step h acts = .ok t ∧ t.sys = s := by
  induction acts generalizing h with
  | nil => exact ⟨h, rfl, Except.ok.inj hrun⟩
  | cons a acts ih =>
    rw [run_cons, bind_eq_ok] at hrun
    obtain ⟨u, hu, hrun⟩ := hrun
    have hstep : h.step a = .ok
        ⟨u, h.time + 1, h.issued + a.issues h.sys, h.assign (a.assigned h.sys)⟩ := by
      rw [CmHistory.step, hu]
      rfl
    obtain ⟨t, ht, he⟩ := ih (h := ⟨u, _, _, _⟩) hrun
    exact ⟨t, by rw [run_cons, hstep]; exact ht, he⟩

end Victim

end Os161
