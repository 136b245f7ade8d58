import Mathlib.Data.List.Pairwise
import Os161.Coremap.Model
import Os161.Machine.Stop

set_option autoImplicit false

/-!
# Who owns a frame

The coremap together with what its callers hold: the allocations that `frame_kalloc` and
`frame_alloc` handed out and that were not taken back (`live`), and the frames whose page
`cm_evict` took away and `cm_update_vaddr` has not replaced yet (`pending`).

* `CmSys.step`: the operations in any order, as the callers use them.
* `CmInv`: how `live` and `pending` determine every entry of the array; kept by every operation.
* **`coremap_exclusive`**: live allocations are disjoint, inside the managed memory and apart from
  the reserved frames, and `frame_kfree` releases exactly its block.
-/

namespace Os161

open Transition

/-- An allocation as its owner knows it: the address and length it got, and the address space for
a user frame (`none` for a kernel block). -/
structure Alloc where
  paddr : ℕ
  npages : ℕ
  owner : Option AsId
  deriving DecidableEq, Repr

/-- The addresses of the frames of an allocation. -/
def Alloc.pages (a : Alloc) : List ℕ := (List.range a.npages).map fun i => a.paddr + i * pageSize

/-- Frame `k` belongs to the allocation. -/
def Alloc.Holds (ram : RamLayout) (a : Alloc) (k : ℕ) : Prop :=
  ∃ i < a.npages, ram.frameAddr k = a.paddr + i * pageSize

/-- Two allocations have no frame in common. -/
def Alloc.Apart (ram : RamLayout) (a b : Alloc) : Prop := ∀ k, a.Holds ram k → ¬ b.Holds ram k

instance (ram : RamLayout) : Std.Symm (Alloc.Apart ram) :=
  ⟨fun _ _ h k hb ha => h k ha hb⟩

/-- The coremap and what its callers hold. -/
structure CmSys where
  cm : Coremap
  live : List Alloc
  pending : List (AsId × ℕ)

namespace CmSys

/-- After `cm_bootstrap`. -/
def boot (ram : RamLayout) (garbage : ℕ → CmEntry) : CmSys := ⟨cmBootstrap ram garbage, [], []⟩

theorem boot_cm (ram : RamLayout) (garbage : ℕ → CmEntry) :
    (boot ram garbage).cm = cmBootstrap ram garbage := rfl

/-- `frame_kalloc` by some caller. -/
def kalloc (s : CmSys) (n : ℕ) : ℕ × CmSys :=
  let r := frameKalloc s.cm n
  (r.1, { s with cm := r.2, live := if r.1 = 0 then s.live else ⟨r.1, n, none⟩ :: s.live })

/-- `frame_alloc` by a fault of `as`. -/
def alloc (s : CmSys) (vaddr : ℕ) (as : AsId) : ℕ × CmSys :=
  let r := frameAlloc s.cm vaddr as
  (r.1, { s with cm := r.2, live := if r.1 = 0 then s.live else ⟨r.1, 1, some as⟩ :: s.live })

/-- `frame_kfree` by the holder of the kernel block `a`. -/
def kfree (s : CmSys) (a : Alloc) : CmSys :=
  { s with cm := frameKfree s.cm (paddrToKvaddr a.paddr), live := s.live.filter (· ≠ a) }

/-- `cm_asfree`: it takes back the frames tagged with the address space, not a frame in the middle
of a replacement. -/
def asfree (s : CmSys) (as : AsId) : CmSys :=
  { s with
    cm := cmAsfree s.cm as
    live := s.live.filter fun a =>
      a.owner ≠ some as ∨ (as, s.cm.ram.frameIndex a.paddr) ∈ s.pending }

/-- `cm_evict` by a fault of `as`. -/
def evict (s : CmSys) (as : AsId) : Option (ℕ × ℕ × ℕ × CmSys) :=
  (cmEvict s.cm as).map fun (victim, paddr, pos, cm) =>
    (victim, paddr, pos, { s with cm := cm, pending := (as, pos) :: s.pending })

/-- `cm_update_vaddr` for a frame that the same address space evicted. -/
def updateVaddr (s : CmSys) (as : AsId) (pos vaddr : ℕ) : CmSys :=
  { s with cm := cmUpdateVaddr s.cm as pos vaddr, pending := s.pending.filter (· ≠ (as, pos)) }

/-- `cm_update_state(paddr, CLEAN)`. -/
def setClean (s : CmSys) (paddr : ℕ) : CmSys := { s with cm := cmUpdateState s.cm paddr .clean }

end CmSys

/-- The operations on the coremap, as the kernel and the faults use them. -/
inductive CmAction
  | kalloc (n : ℕ)
  | alloc (vaddr : ℕ) (as : AsId)
  | kfree (a : Alloc)
  | asfree (as : AsId)
  | evict (as : AsId)
  | updateVaddr (as : AsId) (pos vaddr : ℕ)
  | setClean (as : AsId) (k : ℕ)

/-- One operation. Only a live kernel block is freed, `cm_update_vaddr` follows a `cm_evict` of the
same address space and frame, and only a `LOADING` frame of its own is declared `CLEAN`. -/
def CmSys.step (s : CmSys) : CmAction → Except Stop CmSys
  | .kalloc n => do require (1 ≤ n); return (s.kalloc n).2
  | .alloc vaddr as => return (s.alloc vaddr as).2
  | .kfree a => do require (a ∈ s.live ∧ a.owner = none); return s.kfree a
  | .asfree as => return s.asfree as
  | .evict as =>
    match s.evict as with
    | some (_, _, _, s') => return s'
    | none => .error (.panic .cannotFindVictim)
  | .updateVaddr as pos vaddr => do
    require ((as, pos) ∈ s.pending); return s.updateVaddr as pos vaddr
  | .setClean as k => do
    require (k < s.cm.ramFrames ∧ (s.cm.entry k).as = some as ∧ (s.cm.entry k).state = .loading)
    return s.setClean (s.cm.ram.frameAddr k)

/-! ## Frames of an allocation -/

section Holds

variable {ram : RamLayout} {a : Alloc} {f k : ℕ}

theorem Alloc.mem_pages {q : ℕ} : q ∈ a.pages ↔ ∃ i < a.npages, q = a.paddr + i * pageSize := by
  simp only [Alloc.pages, List.mem_map, List.mem_range]
  exact exists_congr fun i => and_congr_right fun _ => eq_comm

theorem Alloc.holds_iff_mem : a.Holds ram k ↔ ram.frameAddr k ∈ a.pages := Alloc.mem_pages.symm

theorem Alloc.holds_iff (h : a.paddr = ram.frameAddr f) :
    a.Holds ram k ↔ f ≤ k ∧ k < f + a.npages := by
  have hadd : ∀ i, a.paddr + i * pageSize = ram.frameAddr (f + i) := by
    intro i
    rw [h]
    unfold RamLayout.frameAddr
    rw [Nat.add_mul, Nat.add_assoc]
  unfold Alloc.Holds
  simp only [hadd, RamLayout.frameAddr_inj]
  constructor
  · rintro ⟨i, hi, rfl⟩; omega
  · rintro ⟨h₁, h₂⟩; exact ⟨k - f, by omega, by omega⟩

theorem Alloc.holds_first (h : a.paddr = ram.frameAddr f) (hn : 0 < a.npages) : a.Holds ram f :=
  (Alloc.holds_iff h).mpr ⟨le_refl _, by omega⟩

end Holds

/-! ## The invariant -/

/-- What the entry of frame `k` of the allocation `a` holds. -/
def EntryOk (s : CmSys) (a : Alloc) (k : ℕ) : Prop :=
  match a.owner with
  | none => (s.cm.entry k).state = .fixed ∧ (s.cm.entry k).as = none ∧
      (a.paddr = s.cm.ram.frameAddr k → (s.cm.entry k).npages = a.npages)
  | some as =>
    if (as, k) ∈ s.pending then s.cm.entry k = evictedEntry
    else (s.cm.entry k).as = some as ∧ (s.cm.entry k).npages = 1 ∧
      ((s.cm.entry k).state = .loading ∨ (s.cm.entry k).state = .clean)

/-- **The ownership invariant.** -/
structure CmInv (s : CmSys) : Prop where
  /-- An allocation is a non-empty range of managed frames, one frame for a user. -/
  range : ∀ a ∈ s.live, 0 < a.npages ∧ (a.owner ≠ none → a.npages = 1) ∧
    ∃ f, a.paddr = s.cm.ram.frameAddr f ∧ f + a.npages ≤ s.cm.ramFrames
  disjoint : s.live.Pairwise (Alloc.Apart s.cm.ram)
  held : ∀ a ∈ s.live, ∀ k, a.Holds s.cm.ram k → reserved s.cm.ram k = false ∧ EntryOk s a k
  unheld : ∀ k < s.cm.ramFrames, (∀ a ∈ s.live, ¬ a.Holds s.cm.ram k) →
    (s.cm.entry k).as = none ∧ (s.cm.entry k).npages = 0 ∧
      (s.cm.entry k).state = if reserved s.cm.ram k then .fixed else .free
  pending_nodup : (s.pending.map Prod.snd).Nodup
  pending_live : ∀ as k, (as, k) ∈ s.pending → ⟨s.cm.ram.frameAddr k, 1, some as⟩ ∈ s.live

namespace CmInv

variable {s : CmSys} {a b : Alloc} {as as' : AsId} {k : ℕ}

/-- A frame belongs to one allocation. -/
theorem unique (h : CmInv s) (ha : a ∈ s.live) (hb : b ∈ s.live) (hak : a.Holds s.cm.ram k)
    (hbk : b.Holds s.cm.ram k) : a = b := by
  by_contra hne
  exact h.disjoint.forall ha hb hne k hak hbk

theorem lt_of_holds (h : CmInv s) (ha : a ∈ s.live) (hk : a.Holds s.cm.ram k) :
    k < s.cm.ramFrames := by
  obtain ⟨-, -, f, hf, hle⟩ := h.range a ha
  have := (Alloc.holds_iff hf).mp hk
  omega

/-- A `FREE` frame belongs to no allocation. -/
theorem not_holds_of_free (h : CmInv s) (hfree : (s.cm.entry k).state = .free) :
    ∀ a ∈ s.live, ¬ a.Holds s.cm.ram k := by
  intro a ha hk
  have hok := (h.held a ha k hk).2
  unfold EntryOk at hok
  split at hok
  · rw [hfree] at hok; exact FrameState.noConfusion hok.1
  · split_ifs at hok
    · rw [hok] at hfree; exact FrameState.noConfusion hfree
    · rcases hok.2.2 with h | h <;> rw [hfree] at h <;> exact FrameState.noConfusion h

/-- A `FREE` frame is not reserved and its entry is blank. -/
theorem of_free (h : CmInv s) (hk : k < s.cm.ramFrames) (hfree : (s.cm.entry k).state = .free) :
    reserved s.cm.ram k = false ∧ (s.cm.entry k).as = none ∧ (s.cm.entry k).npages = 0 := by
  have := h.unheld k hk (h.not_holds_of_free hfree)
  refine ⟨?_, this.1, this.2.1⟩
  by_contra hr
  rw [hfree, if_pos (by simpa using hr)] at this
  exact FrameState.noConfusion this.2.2

/-- A tagged entry is that of a user frame outside a replacement. -/
theorem of_tagged (h : CmInv s) (hk : k < s.cm.ramFrames) (has : (s.cm.entry k).as = some as) :
    ⟨s.cm.ram.frameAddr k, 1, some as⟩ ∈ s.live ∧ (as, k) ∉ s.pending ∧
      (s.cm.entry k).npages = 1 ∧
        ((s.cm.entry k).state = .loading ∨ (s.cm.entry k).state = .clean) := by
  by_cases hheld : ∃ a ∈ s.live, a.Holds s.cm.ram k
  · obtain ⟨a, ha, hak⟩ := hheld
    have hok := (h.held a ha k hak).2
    obtain ⟨hpos, hone, f, hf, hle⟩ := h.range a ha
    unfold EntryOk at hok
    split at hok
    · rw [has] at hok; exact absurd hok.2.1 (by simp)
    · next as' how =>
      split_ifs at hok with hp
      · rw [hok] at has; exact absurd has (by simp [evictedEntry])
      · rw [has] at hok
        obtain rfl := Option.some.inj hok.1
        have hn := hone (by rw [how]; simp)
        have := (Alloc.holds_iff hf).mp hak
        obtain rfl : k = f := by omega
        refine ⟨?_, hp, hok.2⟩
        rw [← hf, ← hn, ← how]
        exact ha
  · have := h.unheld k hk (fun a ha hak => hheld ⟨a, ha, hak⟩)
    rw [has] at this
    exact absurd this.1 (by simp)

/-- A frame in the middle of a replacement. -/
theorem of_pending (h : CmInv s) (hp : (as, k) ∈ s.pending) :
    k < s.cm.ramFrames ∧ s.cm.entry k = evictedEntry := by
  have hl := h.pending_live as k hp
  have hh : Alloc.Holds s.cm.ram ⟨s.cm.ram.frameAddr k, 1, some as⟩ k :=
    Alloc.holds_first rfl Nat.one_pos
  refine ⟨h.lt_of_holds hl hh, ?_⟩
  have hok := (h.held _ hl k hh).2
  unfold EntryOk at hok
  simp only [if_pos hp] at hok
  exact hok

/-- A frame is replaced by one address space at a time. -/
theorem pending_unique (h : CmInv s) (h₁ : (as, k) ∈ s.pending) (h₂ : (as', k) ∈ s.pending) :
    as = as' := by
  have := h.unique (h.pending_live as k h₁) (h.pending_live as' k h₂)
    (Alloc.holds_first rfl Nat.one_pos) (Alloc.holds_first rfl Nat.one_pos)
  simpa using this

end CmInv

/-! ## The three ways an operation changes the ownership -/

section Change

variable {s t : CmSys} {a : Alloc}

/-- The entries of the other allocations are not affected by a change elsewhere. -/
theorem EntryOk.congr {b : Alloc} {k : ℕ} (hram : t.cm.ram = s.cm.ram)
    (he : t.cm.entry k = s.cm.entry k)
    (hp : ∀ as, b.owner = some as → ((as, k) ∈ t.pending ↔ (as, k) ∈ s.pending))
    (h : EntryOk s b k) : EntryOk t b k := by
  unfold EntryOk at h ⊢
  split at h
  · next ho => simp only [he, hram]; exact h
  · next as ho => simp only [he, hp as ho]; exact h

/-- **A new allocation** out of `FREE` frames. -/
theorem CmInv.add (h : CmInv s) (hram : t.cm.ram = s.cm.ram) (hlive : t.live = a :: s.live)
    (hpend : t.pending = s.pending) {f : ℕ} (hpos : 0 < a.npages)
    (hone : a.owner ≠ none → a.npages = 1) (hf : a.paddr = s.cm.ram.frameAddr f)
    (hle : f + a.npages ≤ s.cm.ramFrames)
    (hfree : ∀ k, a.Holds s.cm.ram k → (s.cm.entry k).state = .free)
    (hnew : ∀ k, a.Holds s.cm.ram k → EntryOk t a k)
    (hold : ∀ k, ¬ a.Holds s.cm.ram k → t.cm.entry k = s.cm.entry k) : CmInv t := by
  have hdis : ∀ b ∈ s.live, ∀ k, a.Holds s.cm.ram k → ¬ b.Holds s.cm.ram k :=
    fun b hb k hk => h.not_holds_of_free (hfree k hk) b hb
  have hfr : t.cm.ramFrames = s.cm.ramFrames := by unfold Coremap.ramFrames; rw [hram]
  refine ⟨?_, ?_, ?_, ?_, ?_, ?_⟩
  · intro b hb
    rw [hlive, List.mem_cons] at hb
    rw [hram, hfr]
    rcases hb with rfl | hb
    · exact ⟨hpos, hone, f, hf, hle⟩
    · exact h.range b hb
  · rw [hlive, List.pairwise_cons, hram]
    exact ⟨fun b hb k hk => hdis b hb k hk, h.disjoint⟩
  · intro b hb k hk
    rw [hlive, List.mem_cons] at hb
    rw [hram] at hk ⊢
    rcases hb with rfl | hb
    · have hlt : k < s.cm.ramFrames := by have := (Alloc.holds_iff hf).mp hk; omega
      exact ⟨(h.of_free hlt (hfree k hk)).1, hnew k hk⟩
    · have := h.held b hb k hk
      exact ⟨this.1, this.2.congr hram (hold k fun hak => hdis b hb k hak hk)
        (fun _ _ => by rw [hpend])⟩
  · intro k hk hno
    rw [hram, hlive] at hno
    rw [hram, hold k (hno a List.mem_cons_self)]
    exact h.unheld k (hfr ▸ hk) fun b hb => hno b (List.mem_cons_of_mem _ hb)
  · rw [hpend]; exact h.pending_nodup
  · intro as k hk
    rw [hpend] at hk
    rw [hlive, hram]
    exact List.mem_cons_of_mem _ (h.pending_live as k hk)

/-- **Some allocations end** and their frames become `FREE`. -/
theorem CmInv.remove (h : CmInv s) (hram : t.cm.ram = s.cm.ram) (keep : Alloc → Bool)
    (hlive : t.live = s.live.filter keep) (hpend : t.pending = s.pending)
    (hgone : ∀ b ∈ s.live, keep b = false → ∀ k, b.Holds s.cm.ram k →
      (t.cm.entry k).as = none ∧ (t.cm.entry k).npages = 0 ∧ (t.cm.entry k).state = .free)
    (hold : ∀ k, (∀ b ∈ s.live, b.Holds s.cm.ram k → keep b = true) →
      t.cm.entry k = s.cm.entry k)
    (hkeep : ∀ as k, (as, k) ∈ s.pending → keep ⟨s.cm.ram.frameAddr k, 1, some as⟩ = true) :
    CmInv t := by
  have hfr : t.cm.ramFrames = s.cm.ramFrames := by unfold Coremap.ramFrames; rw [hram]
  refine ⟨?_, ?_, ?_, ?_, ?_, ?_⟩
  · intro b hb
    rw [hlive, List.mem_filter] at hb
    rw [hram, hfr]
    exact h.range b hb.1
  · rw [hlive, hram]
    exact h.disjoint.filter _
  · intro b hb k hk
    rw [hlive, List.mem_filter] at hb
    rw [hram] at hk ⊢
    have := h.held b hb.1 k hk
    exact ⟨this.1, this.2.congr hram
      (hold k fun c hc hck => h.unique hb.1 hc hk hck ▸ hb.2) (fun _ _ => by rw [hpend])⟩
  · intro k hk hno
    rw [hram, hlive] at hno
    rw [hram]
    by_cases hheld : ∃ b ∈ s.live, b.Holds s.cm.ram k
    · obtain ⟨b, hb, hbk⟩ := hheld
      have hkb : keep b = false := by
        by_contra hc
        exact hno b (List.mem_filter.mpr ⟨hb, by simpa using hc⟩) hbk
      have hres := (h.held b hb k hbk).1
      simpa [hres] using hgone b hb hkb k hbk
    · have hno' : ∀ b ∈ s.live, ¬ b.Holds s.cm.ram k := fun b hb hbk => hheld ⟨b, hb, hbk⟩
      rw [hold k fun b hb hbk => absurd hbk (hno' b hb)]
      exact h.unheld k (hfr ▸ hk) hno'
  · rw [hpend]; exact h.pending_nodup
  · intro as k hk
    rw [hpend] at hk
    rw [hlive, hram]
    exact List.mem_filter.mpr ⟨h.pending_live as k hk, hkeep as k hk⟩

/-- **A user frame changes its page** and keeps its owner. -/
theorem CmInv.rewrite (h : CmInv s) {as : AsId} {f : ℕ}
    (hlf : ⟨s.cm.ram.frameAddr f, 1, some as⟩ ∈ s.live) (hram : t.cm.ram = s.cm.ram)
    (hlive : t.live = s.live)
    (hnd : (t.pending.map Prod.snd).Nodup)
    (hpend : ∀ as' k, (as', k) ≠ (as, f) → ((as', k) ∈ t.pending ↔ (as', k) ∈ s.pending))
    (hok : EntryOk t ⟨s.cm.ram.frameAddr f, 1, some as⟩ f)
    (hold : ∀ k, k ≠ f → t.cm.entry k = s.cm.entry k) : CmInv t := by
  have hfr : t.cm.ramFrames = s.cm.ramFrames := by unfold Coremap.ramFrames; rw [hram]
  have hh : Alloc.Holds s.cm.ram ⟨s.cm.ram.frameAddr f, 1, some as⟩ f :=
    Alloc.holds_first rfl Nat.one_pos
  refine ⟨?_, ?_, ?_, ?_, hnd, ?_⟩
  · rw [hlive, hram, hfr]; exact h.range
  · rw [hlive, hram]; exact h.disjoint
  · intro b hb k hk
    rw [hlive] at hb
    rw [hram] at hk ⊢
    have hb' := h.held b hb k hk
    refine ⟨hb'.1, ?_⟩
    by_cases e : k = f
    · subst e
      rw [h.unique hb hlf hk hh]
      exact hok
    · exact hb'.2.congr hram (hold k e) fun as' _ => hpend as' k fun e' => e (Prod.ext_iff.mp e').2
  · intro k hk hno
    rw [hram, hlive] at hno
    have hkf : k ≠ f := by rintro rfl; exact hno _ hlf hh
    rw [hram, hold k hkf]
    exact h.unheld k (hfr ▸ hk) hno
  · intro as' k hk
    rw [hlive, hram]
    by_cases e : (as', k) = (as, f)
    · cases e; exact hlf
    · exact h.pending_live as' k ((hpend as' k e).mp hk)

end Change

/-! ## Every operation keeps the invariant -/

section Step

variable {s s' : CmSys} {as : AsId} {vaddr paddr pos n k : ℕ}

theorem cmInv_boot (ram : RamLayout) (g : ℕ → CmEntry) : CmInv (CmSys.boot ram g) where
  range a ha := by cases ha
  disjoint := List.Pairwise.nil
  held a ha := by cases ha
  unheld k hk _ := by
    rw [CmSys.boot_cm, Coremap.ramFrames, cmBootstrap_ram] at hk
    rw [CmSys.boot_cm, cmBootstrap_ram]
    exact cmBootstrap_entry hk
  pending_nodup := List.nodup_nil
  pending_live as k hk := by cases hk

/-- `frame_kalloc`: failure, or a new kernel block. -/
theorem CmSys.kalloc_cases (h : s.kalloc n = (paddr, s')) :
    (paddr = 0 ∧ s' = s) ∨ ∃ f, paddr = s.cm.ram.frameAddr f ∧ f + n ≤ s.cm.ramFrames ∧
      (∀ j, f ≤ j → j < f + n → (s.cm.entry j).state = .free) ∧ s'.cm.ram = s.cm.ram ∧
      s'.live = ⟨paddr, n, none⟩ :: s.live ∧ s'.pending = s.pending ∧
      s'.cm.timestamp = wadd s.cm.timestamp 1 ∧ ∀ j, s'.cm.entry j =
        if f ≤ j ∧ j < f + n then kallocEntry s.cm f n j (s.cm.entry j) else s.cm.entry j := by
  unfold CmSys.kalloc at h
  rcases hr : frameKalloc s.cm n with ⟨p, cm'⟩
  simp only [hr] at h
  cases h
  rcases frameKalloc_cases hr with ⟨rfl, rfl⟩ | ⟨f, rfl, hle, hfree, hram, hts, he⟩
  · exact .inl ⟨rfl, by simp⟩
  · refine .inr ⟨f, rfl, hle, hfree, hram, ?_, rfl, hts, he⟩
    rw [if_neg (s.cm.ram.frameAddr_ne_zero f)]

theorem cmInv_kalloc (h : CmInv s) (hn : 1 ≤ n) (hs : s.kalloc n = (paddr, s')) : CmInv s' := by
  rcases CmSys.kalloc_cases hs with ⟨-, rfl⟩ | ⟨f, hp, hle, hfree, hram, hlive, hpend, -, he⟩
  · exact h
  · have hholds : ∀ k, Alloc.Holds s.cm.ram ⟨paddr, n, none⟩ k ↔ f ≤ k ∧ k < f + n :=
      fun k => Alloc.holds_iff hp
    refine h.add hram hlive hpend hn (fun hc => absurd rfl hc) hp hle ?_ ?_ ?_
    · intro k hk
      have := (hholds k).mp hk
      exact hfree k this.1 this.2
    · intro k hk
      have := (hholds k).mp hk
      unfold EntryOk
      simp only [he k, if_pos this]
      refine ⟨rfl, rfl, fun hpk => ?_⟩
      rw [hram, hp, RamLayout.frameAddr_inj] at hpk
      simp [kallocEntry, hpk]
    · intro k hk
      rw [he k, if_neg fun hc => hk ((hholds k).mpr hc)]

/-- `frame_alloc`: no `FREE` frame, or a new user frame. -/
theorem CmSys.alloc_cases (h : s.alloc vaddr as = (paddr, s')) :
    (paddr = 0 ∧ s' = s ∧ ∀ j < s.cm.ramFrames, (s.cm.entry j).state ≠ .free) ∨
    ∃ k, paddr = s.cm.ram.frameAddr k ∧ k < s.cm.ramFrames ∧ (s.cm.entry k).state = .free ∧
      s' = ⟨(s.cm.setEntry k ⟨some as, vaddr, .loading, 1, s.cm.timestamp⟩).tick,
        ⟨s.cm.ram.frameAddr k, 1, some as⟩ :: s.live, s.pending⟩ := by
  unfold CmSys.alloc at h
  rcases hr : frameAlloc s.cm vaddr as with ⟨p, cm'⟩
  simp only [hr] at h
  cases h
  rcases frameAlloc_cases hr with ⟨rfl, rfl, hno⟩ | ⟨k, rfl, hk, hfree, rfl⟩
  · exact .inl ⟨rfl, by simp, hno⟩
  · refine .inr ⟨k, rfl, hk, hfree, ?_⟩
    rw [if_neg (s.cm.ram.frameAddr_ne_zero k)]

theorem cmInv_alloc (h : CmInv s) (hs : s.alloc vaddr as = (paddr, s')) : CmInv s' := by
  rcases CmSys.alloc_cases hs with ⟨-, rfl, -⟩ | ⟨k, -, hk, hfree, rfl⟩
  · exact h
  · have hholds : ∀ j, Alloc.Holds s.cm.ram ⟨s.cm.ram.frameAddr k, 1, some as⟩ j ↔ j = k :=
      fun j => (Alloc.holds_iff rfl).trans (by change k ≤ j ∧ j < k + 1 ↔ j = k; omega)
    have hnp : (as, k) ∉ s.pending := fun hp => by
      rw [(h.of_pending hp).2] at hfree; exact FrameState.noConfusion hfree
    refine h.add rfl rfl rfl Nat.one_pos (fun _ => rfl) rfl hk ?_ ?_ ?_
    · intro j hj; rw [(hholds j).mp hj]; exact hfree
    · intro j hj
      rw [(hholds j).mp hj]
      unfold EntryOk
      simp [hnp]
    · intro j hj
      exact s.cm.setEntry_entry_ne _ fun e => hj ((hholds j).mpr e)

/-- **`frame_kfree` of a live block** frees the frames of the block and touches no other entry. -/
theorem kfree_entry (h : CmInv s) {a : Alloc} (ha : a ∈ s.live) (ho : a.owner = none) (j : ℕ) :
    (s.kfree a).cm.entry j =
      if j < s.cm.ramFrames ∧ s.cm.ram.frameAddr j ∈ a.pages
      then kfreeEntry (s.cm.entry j) else s.cm.entry j := by
  obtain ⟨hpos, -, f, hf, hle⟩ := h.range a ha
  have hfl : f < s.cm.ramFrames := by omega
  have hidx : s.cm.ram.frameIndex (wsub (paddrToKvaddr a.paddr) kseg0) = f := by
    have h₁ := s.cm.ram.frameAddr_lt hfl
    have h₂ := s.cm.ram.lastpaddr_le
    rw [hf, paddrToKvaddr, wsub_wadd (by unfold wordSize; omega), s.cm.ram.frameIndex_frameAddr hfl]
  have hlen : (s.cm.entry f).npages = a.npages := by
    have := (h.held a ha f (Alloc.holds_first hf hpos)).2
    unfold EntryOk at this
    simp only [ho] at this
    exact this.2.2 hf
  unfold CmSys.kfree
  simp only [frameKfree_entry, hidx, hlen]
  refine if_congr ?_ rfl rfl
  rw [← Alloc.holds_iff_mem, Alloc.holds_iff hf]
  constructor
  · intro hj; exact ⟨by omega, hj⟩
  · exact fun hj => hj.2

theorem cmInv_kfree (h : CmInv s) {a : Alloc} (ha : a ∈ s.live) (ho : a.owner = none) :
    CmInv (s.kfree a) := by
  refine h.remove (t := s.kfree a) rfl (fun b => decide (b ≠ a)) rfl rfl ?_ ?_ ?_
  · intro b hb hne k hk
    obtain rfl : b = a := by simpa using hne
    rw [kfree_entry h hb ho, if_pos ⟨h.lt_of_holds hb hk, Alloc.holds_iff_mem.mp hk⟩]
    have hok := (h.held b hb k hk).2
    unfold EntryOk at hok
    simp only [ho] at hok
    exact ⟨hok.2.1, rfl, rfl⟩
  · intro k hk
    rw [kfree_entry h ha ho, if_neg]
    rintro ⟨-, hmem⟩
    exact absurd (hk a ha (Alloc.holds_iff_mem.mpr hmem)) (by simp)
  · intro as k hp
    have hne : (⟨s.cm.ram.frameAddr k, 1, some as⟩ : Alloc) ≠ a := by
      rintro rfl; cases ho
    exact decide_eq_true hne

theorem cmInv_asfree (h : CmInv s) : CmInv (s.asfree as) := by
  refine h.remove (t := s.asfree as) rfl _ rfl rfl ?_ ?_ ?_
  · intro b hb hkeep k hk
    have hnot : b.owner = some as ∧ (as, s.cm.ram.frameIndex b.paddr) ∉ s.pending := by
      simpa using hkeep
    obtain ⟨-, hone, f, hf, hle⟩ := h.range b hb
    have hn := hone (by rw [hnot.1]; simp)
    have hkf := (Alloc.holds_iff hf).mp hk
    obtain rfl : k = f := by omega
    have hnp : (as, k) ∉ s.pending := by
      have := hnot.2
      rwa [hf, s.cm.ram.frameIndex_frameAddr (h.lt_of_holds hb hk)] at this
    have hok := (h.held b hb k hk).2
    unfold EntryOk at hok
    simp only [hnot.1, if_neg hnp] at hok
    have hfix : (s.cm.entry k).state ≠ .fixed := by
      rcases hok.2.2 with e | e <;> rw [e] <;> exact FrameState.noConfusion
    have he : (s.asfree as).cm.entry k = ⟨none, 0, .free, 0, noStamp⟩ := by
      refine (cmAsfree_entry k).trans ?_
      rw [if_pos (h.lt_of_holds hb hk), asfreeEntry, if_pos ⟨hok.1, hfix⟩]
    rw [he]
    exact ⟨rfl, rfl, rfl⟩
  · intro k hk
    change (cmAsfree s.cm as).entry k = s.cm.entry k
    rw [cmAsfree_entry]
    split_ifs with hlt
    · unfold asfreeEntry
      rw [if_neg]
      rintro ⟨has, -⟩
      obtain ⟨hl, hnp, -⟩ := h.of_tagged hlt has
      have := hk _ hl (Alloc.holds_first rfl Nat.one_pos)
      rw [s.cm.ram.frameIndex_frameAddr hlt] at this
      simp [hnp] at this
    · rfl
  · intro as' k hp
    by_cases e : as' = as
    · subst e
      rw [s.cm.ram.frameIndex_frameAddr (h.of_pending hp).1]
      simp [hp]
    · simp [e]

/-- `cm_evict`: the victim is an own `CLEAN` frame. -/
theorem CmSys.evict_cases (h : CmInv s) {victim : ℕ}
    (hs : s.evict as = some (victim, paddr, pos, s')) :
    victim = (s.cm.entry pos).virtAddr ∧ paddr = s.cm.ram.frameAddr pos ∧ pos < s.cm.ramFrames ∧
      (s.cm.entry pos).as = some as ∧ (s.cm.entry pos).state = .clean ∧
      s' = ⟨s.cm.setEntry pos evictedEntry, s.live, (as, pos) :: s.pending⟩ := by
  unfold CmSys.evict at hs
  rw [Option.map_eq_some_iff] at hs
  obtain ⟨⟨victim', paddr', pos', cm'⟩, hr, hs⟩ := hs
  cases hs
  obtain ⟨k, hk, hlt, hev, -, -⟩ := cmEvict_cases hr
  cases hk
  have hev' : (s.cm.entry pos).as = some as ∧ (s.cm.entry pos).state ≠ .fixed ∧
      (s.cm.entry pos).state ≠ .loading := by simpa [evictable] using hev
  refine ⟨rfl, rfl, hlt, hev'.1, ?_, rfl⟩
  exact (h.of_tagged hlt hev'.1).2.2.2.resolve_left hev'.2.2

theorem cmInv_evict (h : CmInv s) {victim : ℕ}
    (hs : s.evict as = some (victim, paddr, pos, s')) : CmInv s' := by
  obtain ⟨-, -, hlt, has, -, rfl⟩ := CmSys.evict_cases h hs
  obtain ⟨hl, -, -, -⟩ := h.of_tagged hlt has
  have hnew : ∀ as', (as', pos) ∉ s.pending := fun as' hp => by
    rw [(h.of_pending hp).2] at has
    cases has
  refine h.rewrite hl rfl rfl ?_ ?_ ?_ ?_
  · rw [List.map_cons, List.nodup_cons]
    refine ⟨fun hmem => ?_, h.pending_nodup⟩
    obtain ⟨⟨as', k⟩, hp, rfl⟩ := List.mem_map.mp hmem
    exact hnew as' hp
  · intro as' k hne
    simp only [List.mem_cons, hne, false_or]
  · unfold EntryOk
    simp
  · intro k hne
    exact s.cm.setEntry_entry_ne _ hne

theorem cmInv_updateVaddr (h : CmInv s) (hp : (as, pos) ∈ s.pending) :
    CmInv (s.updateVaddr as pos vaddr) := by
  refine h.rewrite (t := s.updateVaddr as pos vaddr) (h.pending_live as pos hp) rfl rfl ?_ ?_ ?_ ?_
  · exact h.pending_nodup.sublist (List.filter_sublist.map _)
  · intro as' k hne
    change (as', k) ∈ s.pending.filter _ ↔ _
    simp only [List.mem_filter, hne, ne_eq, not_false_eq_true, decide_true, and_true]
  · have hgone : (as, pos) ∉ (s.updateVaddr as pos vaddr).pending := by
      simp [CmSys.updateVaddr]
    unfold EntryOk
    simp only [if_neg hgone]
    simp [CmSys.updateVaddr, cmUpdateVaddr_entry]
  · intro k hne
    exact (cmUpdateVaddr_entry k).trans (if_neg hne)

theorem cmInv_setClean (h : CmInv s) (hk : k < s.cm.ramFrames) (has : (s.cm.entry k).as = some as) :
    CmInv (s.setClean (s.cm.ram.frameAddr k)) := by
  obtain ⟨hl, hnp, hn, -⟩ := h.of_tagged hk has
  refine h.rewrite (t := s.setClean (s.cm.ram.frameAddr k)) hl rfl rfl h.pending_nodup
    (fun _ _ _ => Iff.rfl) ?_ ?_
  · unfold EntryOk
    have he : (s.setClean (s.cm.ram.frameAddr k)).cm.entry k =
        { s.cm.entry k with state := .clean } := (cmUpdateState_entry hk k).trans (if_pos rfl)
    have hnp' : (as, k) ∉ (s.setClean (s.cm.ram.frameAddr k)).pending := hnp
    simp only [if_neg hnp', he]
    exact ⟨has, hn, .inr trivial⟩
  · intro j hne
    exact (cmUpdateState_entry hk j).trans (if_neg hne)

/-- **Every operation keeps the invariant.** -/
theorem cmInv_step {a : CmAction} (h : CmInv s) (hs : s.step a = .ok s') : CmInv s' := by
  cases a with
  | kalloc n =>
    obtain ⟨hn, hs⟩ := require_bind_ok.mp hs
    cases hs
    exact cmInv_kalloc h hn rfl
  | alloc vaddr as =>
    cases hs
    exact cmInv_alloc h rfl
  | kfree a =>
    obtain ⟨⟨ha, ho⟩, hs⟩ := require_bind_ok.mp hs
    cases hs
    exact cmInv_kfree h ha ho
  | asfree as =>
    cases hs
    exact cmInv_asfree h
  | evict as =>
    simp only [CmSys.step] at hs
    split at hs
    · next hr =>
      cases hs
      exact cmInv_evict h hr
    · cases hs
  | updateVaddr as pos vaddr =>
    obtain ⟨hp, hs⟩ := require_bind_ok.mp hs
    cases hs
    exact cmInv_updateVaddr h hp
  | setClean as k =>
    obtain ⟨⟨hk, has, -⟩, hs⟩ := require_bind_ok.mp hs
    cases hs
    exact cmInv_setClean h hk has

end Step

/-! ## Runs -/

section Run

variable {ram : RamLayout} {g : ℕ → CmEntry} {acts : List CmAction} {s : CmSys}

/-- No operation changes the managed memory. -/
theorem ram_step {s s' : CmSys} {a : CmAction} (h : CmInv s) (hs : s.step a = .ok s') :
    s'.cm.ram = s.cm.ram := by
  cases a with
  | kalloc n =>
    obtain ⟨-, hs⟩ := require_bind_ok.mp hs
    cases hs
    rcases CmSys.kalloc_cases (rfl : s.kalloc n = (_, _)) with ⟨-, h⟩ | ⟨f, -, -, -, h, -⟩
    · exact congrArg (fun t => t.cm.ram) h
    · exact h
  | alloc vaddr as =>
    cases hs
    rcases CmSys.alloc_cases (rfl : s.alloc vaddr as = (_, _)) with ⟨-, h, -⟩ | ⟨k, -, -, -, h⟩ <;>
      exact congrArg (fun t => t.cm.ram) h
  | kfree a => obtain ⟨-, hs⟩ := require_bind_ok.mp hs; cases hs; rfl
  | asfree as => cases hs; rfl
  | evict as =>
    simp only [CmSys.step] at hs
    split at hs
    · next hr =>
      cases hs
      obtain ⟨-, -, -, -, -, rfl⟩ := CmSys.evict_cases h hr
      rfl
    · cases hs
  | updateVaddr as pos vaddr => obtain ⟨-, hs⟩ := require_bind_ok.mp hs; cases hs; rfl
  | setClean as k => obtain ⟨-, hs⟩ := require_bind_ok.mp hs; cases hs; rfl

/-- The invariant holds in every reachable state, over the memory of the boot. -/
theorem cmInv_run (h : run CmSys.step (CmSys.boot ram g) acts = .ok s) :
    CmInv s ∧ s.cm.ram = ram :=
  run_inv CmSys.step (P := fun s => CmInv s ∧ s.cm.ram = ram)
    (fun _ _ _ hi hs => ⟨cmInv_step hi.1 hs, (ram_step hi.1 hs).trans hi.2⟩)
    ⟨cmInv_boot ram g, cmBootstrap_ram ram g⟩ h

/-- **Coremap exclusivity.** In every reachable state the live allocations are disjoint, inside the
managed memory and apart from the reserved frames; a `FREE` entry is blank; and `frame_kfree` of a
live block turns exactly the frames of the block from `FIXED` to `FREE`. -/
theorem coremap_exclusive (h : run CmSys.step (CmSys.boot ram g) acts = .ok s) :
    (s.live.Pairwise fun a b => a.pages.Disjoint b.pages) ∧
    (∀ a ∈ s.live, ∀ q ∈ a.pages,
      ram.firstpaddr ≤ q ∧ q + pageSize ≤ ram.firstpaddr + ram.ramFrames * pageSize ∧
      ∀ k, reserved ram k = true → q ≠ ram.frameAddr k) ∧
    (∀ k < ram.ramFrames, (s.cm.entry k).state = .free →
      (s.cm.entry k).as = none ∧ (s.cm.entry k).npages = 0) ∧
    (∀ a ∈ s.live, a.owner = none → ∀ k < ram.ramFrames,
      (ram.frameAddr k ∈ a.pages → (s.cm.entry k).state = .fixed ∧
        (frameKfree s.cm (paddrToKvaddr a.paddr)).entry k = ⟨none, 0, .free, 0, noStamp⟩) ∧
      (ram.frameAddr k ∉ a.pages →
        (frameKfree s.cm (paddrToKvaddr a.paddr)).entry k = s.cm.entry k)) := by
  have hi := (cmInv_run h).1
  obtain rfl := (cmInv_run h).2
  have hpage : ∀ a ∈ s.live, ∀ q ∈ a.pages, ∃ k < s.cm.ramFrames, q = s.cm.ram.frameAddr k ∧
      a.Holds s.cm.ram k := by
    intro a ha q hq
    obtain ⟨-, -, f, hf, hle⟩ := hi.range a ha
    obtain ⟨i, hi', rfl⟩ := Alloc.mem_pages.mp hq
    have hk : a.paddr + i * pageSize = s.cm.ram.frameAddr (f + i) := by
      rw [hf]; unfold RamLayout.frameAddr; rw [Nat.add_mul, Nat.add_assoc]
    exact ⟨f + i, by omega, hk, (Alloc.holds_iff hf).mpr ⟨by omega, by omega⟩⟩
  refine ⟨?_, ?_, ?_, ?_⟩
  · refine hi.disjoint.imp_of_mem fun {a b} ha hb hab q hqa hqb => ?_
    obtain ⟨k, -, rfl, hak⟩ := hpage a ha q hqa
    exact hab k hak (Alloc.holds_iff_mem.mpr hqb)
  · intro a ha q hq
    obtain ⟨k, hk, rfl, hak⟩ := hpage a ha q hq
    refine ⟨Nat.le_add_right _ _, ?_, ?_⟩
    · have : (k + 1) * pageSize ≤ s.cm.ram.ramFrames * pageSize := Nat.mul_le_mul_right _ hk
      unfold RamLayout.frameAddr
      unfold pageSize at *
      omega
    · intro j hj hjk
      rw [← s.cm.ram.frameAddr_injective hjk, (hi.held a ha k hak).1] at hj
      exact Bool.noConfusion hj
  · intro k hk hfree
    exact (hi.of_free hk hfree).2
  · intro a ha ho k hk
    have he : (frameKfree s.cm (paddrToKvaddr a.paddr)).entry k = _ := kfree_entry hi ha ho k
    refine ⟨fun hmem => ?_, fun hmem => ?_⟩
    · have hok := (hi.held a ha k (Alloc.holds_iff_mem.mpr hmem)).2
      unfold EntryOk at hok
      simp only [ho] at hok
      rw [he, if_pos ⟨hk, hmem⟩, kfreeEntry, hok.2.1]
      exact ⟨hok.1, rfl⟩
    · rw [he, if_neg fun hc => hmem hc.2]

/-- Sixteen frames of memory. -/
def smallRam : RamLayout where
  firstpaddr := 0x30000
  lastpaddr := 0x40000
  firstpaddr_pos := by decide
  firstpaddr_dvd := by decide
  le := by decide
  lastpaddr_le := by decide

/-- A user frame is evicted and refilled between kernel blocks. -/
def mixedRun : List CmAction :=
  [.kalloc 3, .alloc 0x400000 7, .kalloc 2, .setClean 7 4, .evict 7, .kalloc 1,
    .updateVaddr 7 4 0x401000, .kfree ⟨0x31000, 3, none⟩, .alloc 0x500000 8]

theorem coremap_exclusive_mixedRun :
    ∃ s, run CmSys.step (CmSys.boot smallRam fun _ => evictedEntry) mixedRun = .ok s ∧
      s.live.map Alloc.paddr = [0x31000, 0x37000, 0x35000, 0x34000] ∧
      s.live.Pairwise fun a b => a.pages.Disjoint b.pages := by
  refine ⟨_, rfl, rfl, ?_⟩
  exact (coremap_exclusive (show run CmSys.step (CmSys.boot smallRam fun _ => evictedEntry)
    mixedRun = .ok _ from rfl)).1

end Run

end Os161
