import Os161.Coremap.Model

set_option autoImplicit false

/-!
# `frame_kalloc` is first fit

The search of `frame_kalloc` keeps the start of the current run of `FREE` frames in a local variable
that is not initialised.

* `FreeRun`: `n` consecutive `FREE` frames.
* `kallocScan_spec`: the loop invariant, and what the search finds.
* `frameKallocChecked`: the same function with the variable undefined at first and every index
  checked; `frameKallocChecked_eq`: it never fails.
* **`frameKalloc_firstFit`**: the lowest run is taken, and `0` is returned when there is none.
-/

namespace Os161

open Loop

/-- `n` consecutive `FREE` frames from `f` on. -/
def Coremap.FreeRun (cm : Coremap) (n f : ℕ) : Prop :=
  ∀ j, f ≤ j → j < f + n → (cm.entry j).state = .free

/-- What the variable `first` holds behind a `FREE` frame: the start of its run, which is not long
enough yet. -/
structure Coremap.RunBehind (cm : Coremap) (n i first : ℕ) : Prop where
  lt : first < i
  free : ∀ j, first ≤ j → j < i → (cm.entry j).state = .free
  maximal : 0 < first → (cm.entry (first - 1)).state ≠ .free
  short : i < first + n

section Scan

variable {cm : Coremap} {n m i first f : ℕ}

/-- The start of the run of a `FREE` frame. -/
theorem runStart_spec (hfirst : 0 < i → (cm.entry (i - 1)).state = .free → cm.RunBehind n i first)
    (hfree : (cm.entry i).state = .free) :
    runStart cm i first ≤ i ∧ (∀ j, runStart cm i first ≤ j → j < i + 1 → (cm.entry j).state = .free) ∧
      (0 < runStart cm i first → (cm.entry (runStart cm i first - 1)).state ≠ .free) ∧
      (1 ≤ n → i + 1 ≤ runStart cm i first + n) := by
  unfold runStart
  split_ifs with hc
  · refine ⟨le_refl _, fun j h₁ h₂ => ?_, fun hpos => hc.resolve_left (by omega), fun _ => by omega⟩
    rw [show j = i by omega]
    exact hfree
  · push Not at hc
    have hrun := hfirst (Nat.pos_of_ne_zero hc.1) hc.2
    refine ⟨Nat.le_of_lt hrun.lt, fun j h₁ h₂ => ?_, hrun.maximal, fun _ => hrun.short⟩
    by_cases e : j = i
    · rw [e]
      exact hfree
    · exact hrun.free j h₁ (by omega)

variable (cm m i first) in
/-- **The search**: it stops at the first index at which a run of `n` frames is complete. -/
theorem kallocScan_spec (hn : 1 ≤ n)
    (hfirst : 0 < i → (cm.entry (i - 1)).state = .free → cm.RunBehind n i first)
    (hno : ∀ g, cm.FreeRun n g → i < g + n) :
    match kallocScan cm n m i first with
    | some f => f + n ≤ i + m ∧ cm.FreeRun n f ∧ ∀ g < f, ¬ cm.FreeRun n g
    | none => ∀ g, cm.FreeRun n g → i + m < g + n := by
  induction m generalizing i first with
  | zero => exact hno
  | succ m ih =>
    rw [kallocScan]
    by_cases hfree : (cm.entry i).state = .free
    · rw [if_pos hfree]
      obtain ⟨hle, hall, hmax, hend⟩ := runStart_spec hfirst hfree
      split_ifs with hlen
      · have hstop : runStart cm i first + n = i + 1 := by have := hend hn; omega
        refine ⟨by omega, fun j h₁ h₂ => hall j h₁ (by omega), fun g hg hrun => ?_⟩
        have := hno g hrun
        omega
      · rw [show i + (m + 1) = i + 1 + m by omega]
        refine ih _ _ (fun _ _ => ⟨by omega, hall, hmax, by omega⟩) fun g hrun => ?_
        by_contra hstop
        have hge := hno g hrun
        -- the run ends at frame `i`, so it starts where the run of that frame starts, or behind
        have hstart : runStart cm i first ≤ g := by
          by_contra hlt
          exact hmax (by omega) (hrun _ (by omega) (by omega))
        omega
    · rw [if_neg hfree, show i + (m + 1) = i + 1 + m by omega]
      refine ih _ _ (fun _ hc => absurd (by simpa using hc) hfree) fun g hrun => ?_
      by_contra hstop
      have hge := hno g hrun
      exact hfree (hrun i (by omega) (by omega))

variable (cm) in
/-- The search of `frame_kalloc` over the whole array. -/
theorem kallocScan_zero (hn : 1 ≤ n) :
    match kallocScan cm n cm.ramFrames 0 0 with
    | some f => f + n ≤ cm.ramFrames ∧ cm.FreeRun n f ∧ ∀ g < f, ¬ cm.FreeRun n g
    | none => ∀ g, cm.FreeRun n g → cm.ramFrames < g + n := by
  have h := kallocScan_spec cm cm.ramFrames 0 0 hn (fun h => absurd h (lt_irrefl 0))
    fun g _ => (by omega : 0 < g + n)
  rwa [Nat.zero_add] at h

/-- Where a run is there, `frame_kalloc` does not fail. -/
theorem frameKalloc_ne_zero (hn : 1 ≤ n) (hle : f + n ≤ cm.ramFrames) (hrun : cm.FreeRun n f) :
    (frameKalloc cm n).1 ≠ 0 := by
  have hspec := kallocScan_zero cm hn
  unfold frameKalloc
  generalize kallocScan cm n cm.ramFrames 0 0 = r at hspec
  cases r with
  | none => exact absurd (hspec f hrun) (by omega)
  | some f' => exact cm.ram.frameAddr_ne_zero f'

end Scan

/-! ## The reads of the function -/

/-- `coremap[i].state`; `none` is an index outside the array. -/
def Coremap.stateAt (cm : Coremap) (i : ℕ) : Option FrameState :=
  if i < cm.ramFrames then some (cm.entry i).state else none

/-- `runStart` with its reads checked: `first` is `none` until it is set, and then a read of it is
`none`. -/
def runStartChecked (cm : Coremap) (i : ℕ) (first : Option ℕ) : Option ℕ :=
  if i = 0 then some i
  else do
    let before ← cm.stateAt (i - 1)
    if before ≠ .free then some i else first

/-- The search loop with its reads checked; the outer `none` is a read that fails. -/
def kallocScanChecked (cm : Coremap) (nframes : ℕ) : (n i : ℕ) → Option ℕ → Option (Option ℕ)
  | 0, _, _ => some none
  | n + 1, i, first => do
    let state ← cm.stateAt i
    if state = .free then
      let first ← runStartChecked cm i first
      if nframes ≤ i - first + 1 then some (some first)
      else kallocScanChecked cm nframes n (i + 1) (some first)
    else kallocScanChecked cm nframes n (i + 1) first

/-- `frame_kalloc` with its accesses checked. -/
def frameKallocChecked (cm : Coremap) (nframes : ℕ) : Option (ℕ × Coremap) := do
  match ← kallocScanChecked cm nframes cm.ramFrames 0 none with
  | some first =>
    if first + nframes ≤ cm.ramFrames then
      some (cm.ram.frameAddr first,
        Coremap.tick { cm with
          entry :=
            forRange first nframes
              (fun i g => Function.update g i (kallocEntry cm first nframes i (g i))) cm.entry })
    else none
  | none => some (0, cm)

section Checked

variable {cm : Coremap} {n m i first : ℕ} {first? : Option ℕ}

theorem runStartChecked_eq (hi : i < cm.ramFrames)
    (hset : 0 < i → (cm.entry (i - 1)).state = .free → first? = some first) :
    runStartChecked cm i first? = some (runStart cm i first) := by
  have hbefore : cm.stateAt (i - 1) = some (cm.entry (i - 1)).state := if_pos (by omega)
  unfold runStartChecked runStart
  rw [hbefore]
  by_cases h0 : i = 0
  · simp [h0]
  · by_cases hp : (cm.entry (i - 1)).state = .free
    · simp [h0, hp, hset (Nat.pos_of_ne_zero h0) hp]
    · simp [h0, hp]

variable (cm n first? first) in
/-- Where the variable is set behind a `FREE` frame, no read of the search fails. -/
theorem kallocScanChecked_eq (hm : i + m = cm.ramFrames)
    (hset : 0 < i → (cm.entry (i - 1)).state = .free → first? = some first) :
    kallocScanChecked cm n m i first? = some (kallocScan cm n m i first) := by
  induction m generalizing i first first? with
  | zero => rfl
  | succ m ih =>
    have hi : cm.stateAt i = some (cm.entry i).state := if_pos (by omega)
    rw [kallocScanChecked, kallocScan, hi, runStartChecked_eq (by omega) hset]
    simp only [Option.bind_eq_bind, Option.bind_some]
    by_cases hfree : (cm.entry i).state = .free
    · rw [if_pos hfree, if_pos hfree]
      split_ifs with hlen
      · rfl
      · exact ih _ _ (by omega) fun _ _ => rfl
    · rw [if_neg hfree, if_neg hfree]
      exact ih _ _ (by omega) fun _ hc => absurd (by simpa using hc) hfree

/-- **No access of `frame_kalloc` fails.** -/
theorem frameKallocChecked_eq (hn : 1 ≤ n) :
    frameKallocChecked cm n = some (frameKalloc cm n) := by
  have hscan := kallocScanChecked_eq cm n 0 none (Nat.zero_add _)
    (fun h => absurd h (lt_irrefl 0))
  have hspec := kallocScan_zero cm hn
  unfold frameKallocChecked frameKalloc
  rw [hscan]
  simp only [Option.bind_eq_bind, Option.bind_some]
  generalize kallocScan cm n cm.ramFrames 0 0 = r at hspec
  cases r with
  | none => rfl
  | some f => exact if_pos hspec.1

end Checked

/-- **`frame_kalloc` is first fit.** No access fails; the lowest run of `n` `FREE` frames becomes a
kernel block, the other entries stay, and without such a run nothing changes and the result is `0`. -/
theorem frameKalloc_firstFit (cm : Coremap) (n : ℕ) (hn : 1 ≤ n) :
    frameKallocChecked cm n = some (frameKalloc cm n) ∧
    (∀ f, f + n ≤ cm.ramFrames → cm.FreeRun n f → (∀ g < f, ¬ cm.FreeRun n g) →
      (frameKalloc cm n).1 = cm.ram.frameAddr f ∧
      ∀ i, (frameKalloc cm n).2.entry i =
        if f ≤ i ∧ i < f + n then
          ⟨none, paddrToKvaddr (cm.ram.frameAddr i), .fixed,
            if i = f then n else (cm.entry i).npages, cm.timestamp⟩
        else cm.entry i) ∧
    ((∀ f, f + n ≤ cm.ramFrames → ¬ cm.FreeRun n f) → frameKalloc cm n = (0, cm)) := by
  have hspec := kallocScan_zero cm hn
  refine ⟨frameKallocChecked_eq hn, fun f hle hrun hlow => ?_, fun hno => ?_⟩
  · unfold frameKalloc
    generalize kallocScan cm n cm.ramFrames 0 0 = r at hspec
    cases r with
    | none => exact absurd (hspec f hrun) (by omega)
    | some f' =>
      obtain ⟨-, hrun', hlow'⟩ := hspec
      obtain rfl : f = f' := by
        apply le_antisymm
        · exact Nat.le_of_not_lt fun hlt => hlow f' hlt hrun'
        · exact Nat.le_of_not_lt fun hlt => hlow' f hlt hrun
      exact ⟨rfl, fun i => forRange_update _ n f _ i⟩
  · unfold frameKalloc
    generalize kallocScan cm n cm.ramFrames 0 0 = r at hspec
    cases r with
    | none => rfl
    | some f => exact absurd hspec.2.1 (hno f hspec.1)

/-- The first two frames of three are taken. -/
theorem frameKalloc_firstFit_two :
    1 ≤ 2 ∧ (frameKalloc ⟨⟨0x30000, 0x33000, by decide, by decide, by decide, by decide⟩,
      fun _ => ⟨none, 0, .free, 0, noStamp⟩, 0⟩ 2).1 = 0x30000 :=
  ⟨by decide, ((frameKalloc_firstFit
    ⟨⟨0x30000, 0x33000, by decide, by decide, by decide, by decide⟩,
      fun _ => ⟨none, 0, .free, 0, noStamp⟩, 0⟩ 2 (by decide)).2.1 0 (by decide)
      (fun _ _ _ => rfl) (fun _ h => absurd h (Nat.not_lt_zero _))).1⟩

end Os161
