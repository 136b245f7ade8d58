import Os161.Sfs.Flaky

set_option autoImplicit false

/-!
# Offsets and lengths of 64 bits

`sfs_io` looks its blocks up by numbers of 32 bits, and `sfs_itrunc` keeps 32 bits of the length.

* `sfsIoVia`: `sfs_io` with the lookup as a parameter; `OnlyRequested`: what the lookup does matters
  for the requested blocks only, and out of range it is EFBIG.
* `Moves`: a device whose transfers move the uio; `flakyDevice_moves`, `lhdDevice_moves`.
* **`narrow_iff`**: when `sfs_io` touches the requested blocks only, and when `sfs_itrunc` records its
  length or fails without a change.
-/

namespace Os161

open Buffer Vol

namespace SfsFs

/-! ### The lookup as a parameter -/

section Via

variable (bmap : ℕ → Bool → SfsM ℕ)

/-- The lookup of the block that a uio is at. -/
def lookupVia (u : Uio) : SfsM ℕ := bmap (u.offset / sfsBlocksize % wordSize) (u.rw = .write)

/-- `sfs_partialio`. -/
def partialioVia (u : Uio) (skipstart len : ℕ) : SfsM (Option FsErr × Uio) := do
  kassert (skipstart + len ≤ sfsBlocksize)
  match ← attempt (lookupVia bmap u) with
  | .error e => return (some e, u)
  | .ok diskblock => do
    let e ← status (loadBlock u.rw diskblock)
    if e.isSome then return (e, u) else movePartial u diskblock skipstart len

/-- `sfs_blockio`. -/
def blockioVia (u : Uio) : SfsM (Option FsErr × Uio) := do
  match ← attempt (lookupVia bmap u) with
  | .error e => return (some e, u)
  | .ok diskblock => blockTransfer u diskblock

/-- The leading partial block of `sfs_io`. -/
def ioLeadVia (u : Uio) : SfsM (Option FsErr × Uio) :=
  let blkoff := u.offset % sfsBlocksize
  if blkoff = 0 then return (none, u)
  else partialioVia bmap u blkoff (min (sfsBlocksize - blkoff) u.resid)

/-- The whole blocks of `sfs_io`. -/
def ioBlocksVia : (nblocks : ℕ) → Uio → SfsM (Option FsErr × Uio)
  | 0, u => return (none, u)
  | n + 1, u => do
    let (e, u) ← blockioVia bmap u
    if e.isSome then return (e, u) else ioBlocksVia n u

/-- The remaining partial block of `sfs_io`. -/
def ioTailVia (u : Uio) : SfsM (Option FsErr × Uio) := do
  kassert (u.resid < sfsBlocksize)
  if u.resid = 0 then return (none, u) else partialioVia bmap u 0 u.resid

/-- `sfs_io` between the check for the end of the file and the label `out`. -/
def ioTransferVia (u : Uio) : SfsM (Option FsErr × Uio) := do
  let (e, u) ← ioLeadVia bmap u
  if e.isSome ∨ u.resid = 0 then return (e, u)
  else do
    kassert (u.offset % sfsBlocksize = 0)
    let (e, u) ← ioBlocksVia bmap (u.resid / sfsBlocksize) u
    if e.isSome then return (e, u) else ioTailVia bmap u

/-- `sfs_io`. -/
def sfsIoVia (ino : ℕ) (u : Uio) : SfsM (Option FsErr × Uio) := do
  let m ← getFs
  let size := sfiSize (m.inode ino)
  let extra := if u.rw = .read then u.offset + u.resid - size else 0
  if u.rw = .read ∧ size ≤ u.offset then return (none, u)
  else do
    kassert (extra = 0 ∨ extra < u.resid)
    let (e, v) ← ioTransferVia bmap { u with resid := u.resid - extra }
    let v ← ioOut ino v u.resid extra
    return (e, v)

end Via

section Same

variable (ino : ℕ)

theorem ioBlocksVia_bmap (n : ℕ) (u : Uio) : ioBlocksVia (sfsBmap ino) n u = ioBlocks ino n u := by
  induction n generalizing u with
  | zero => rfl
  | succ n ih =>
    unfold ioBlocksVia ioBlocks
    simp only [ih]
    rfl

theorem ioTransferVia_bmap (u : Uio) : ioTransferVia (sfsBmap ino) u = ioTransfer ino u := by
  unfold ioTransferVia ioTransfer
  simp only [ioBlocksVia_bmap]
  rfl

/-- **`sfs_io`** is the program with `sfs_bmap` as the lookup. -/
theorem sfsIoVia_bmap (u : Uio) : sfsIoVia (sfsBmap ino) ino u = sfsIo ino u := by
  unfold sfsIoVia sfsIo
  simp only [ioTransferVia_bmap]

end Same

/-- A block at one of the positions that are requested. -/
def Requested (u : Uio) (fb : ℕ) : Prop :=
  ∃ p, u.offset ≤ p ∧ p < u.offset + u.resid ∧ fb = p / sfsBlocksize

/-- **`sfs_io` touches the requested blocks only** or returns EFBIG: it does the same with any lookup
that is `sfs_bmap` for these blocks and EFBIG for the blocks that no file has. -/
def OnlyRequested {D : Type} (dev : Device D) (ino : ℕ) (u : Uio) (m : SfsFs) (d : D) : Prop :=
  ∀ bmap : ℕ → Bool → SfsM ℕ, (∀ fb doalloc, Requested u fb → bmap fb doalloc = sfsBmap ino fb doalloc) →
    (∀ fb doalloc, sfsNdirect + sfsDbperidb ≤ fb → bmap fb doalloc = throw .efbig) →
    runOn dev (sfsIoVia bmap ino u) m d = runOn dev (sfsIo ino u) m d

/-- **The number of the first block is another one's**: it is below the maximum, and the offset is at
least 2^41, or the request is empty. -/
structure Aliased (ino : ℕ) (u : Uio) (m : SfsFs) : Prop where
  within : u.rw = .read → u.offset < sfiSize (m.inode ino)
  low : u.offset / sfsBlocksize % wordSize < sfsNdirect + sfsDbperidb
  far : u.resid = 0 ∧ u.offset % sfsBlocksize ≠ 0 ∨ 0 < u.resid ∧ 2 ^ 41 ≤ u.offset

/-! ### The uio moves -/

section Moved

variable {u u' : Uio} {ptr ptr' : Buffer} {n k m : ℕ}

/-- A transfer that succeeds has moved the uio. -/
theorem uiomove_moved (h : uiomove ptr k n u = .ok (none, u', ptr')) (hr : n ≤ u.resid)
    (hlt : u.resid < wordSize) : u.Moved u' n := by
  by_cases hi : n ≤ u.iov.sum
  · by_cases ha : u.Accessible n
    · obtain ⟨v, c, he, hm, -⟩ := uiomove_ok ⟨hr, hi, hlt, ha⟩ ptr k
      cases he.symm.trans h
      exact hm
    · obtain ⟨v, c, he⟩ := uiomove_fault hr hi hlt ha ptr k
      cases he.symm.trans h
  · exact absurd h (uiomoveLoop_short u.iov (by omega) hr hlt)

/-- The uio after `n` bytes. -/
def Advanced (u u' : Uio) (n : ℕ) : Prop := u'.offset = u.offset + n ∧ u'.resid + n = u.resid

theorem zerosLoop_advanced (h : zerosLoop m n u = .ok (none, u')) (hn : n ≤ 16 * m)
    (hr : n ≤ u.resid) (hlt : u.resid < wordSize) : Advanced u u' n := by
  induction m generalizing u n with
  | zero =>
    cases h
    obtain rfl : n = 0 := by omega
    exact ⟨rfl, rfl⟩
  | succ m ih =>
    rw [zerosLoop] at h
    obtain ⟨⟨e, u₁, ptr⟩, hm, h⟩ := Transition.bind_eq_ok.mp h
    simp only at h
    cases e with
    | some e =>
      rw [if_pos (show (some e).isSome = true from rfl)] at h
      cases h
    | none =>
      rw [if_neg (by simp)] at h
      have hmove := uiomove_moved hm (by omega) hlt
      have hoff := hmove.offset
      have hres := hmove.resid
      obtain ⟨h₁, h₂⟩ := ih h (by omega) (by omega) (by omega)
      exact ⟨by omega, by omega⟩

theorem uiomovezeros_advanced (h : uiomovezeros n u = .ok (none, u')) (hr : n ≤ u.resid)
    (hlt : u.resid < wordSize) : Advanced u u' n := by
  unfold uiomovezeros at h
  split_ifs at h
  exact zerosLoop_advanced h (by omega) hr hlt

end Moved

/-- A device whose transfers move the uio. -/
def Moves {D : Type} (dev : Device D) : Prop := ∀ d q u d', dev d q = .ok ((none, u), d') →
  Advanced q.uio u sfsBlocksize

section Devices

theorem diskDevice_moves : Moves diskDevice := by
  intro d q u d' h
  unfold diskDevice diskSector at h
  split_ifs at h
  have hres : q.uio.resid = lhdSectsize := q.resid
  have hle : lhdSectsize ≤ q.uio.resid := le_of_eq hres.symm
  have hlt : q.uio.resid < wordSize := by
    rw [hres]
    decide
  cases hrw : q.uio.rw <;> rw [hrw] at h
  all_goals
    obtain ⟨⟨e, u₁, data⟩, hm, h⟩ := Transition.bind_eq_ok.mp h
    cases h
    have hmove := uiomove_moved hm hle hlt
    exact ⟨hmove.offset, hmove.resid⟩

theorem flakyDevice_moves : Moves flakyDevice := by
  intro d q u d' h
  unfold flakyDevice at h
  cases hf : d.fails 0 with
  | some e =>
    rw [hf] at h
    cases h
  | none =>
    rw [hf] at h
    obtain ⟨⟨⟨e, u₁⟩, d₁⟩, hr, he⟩ := Transition.map_eq_ok h
    cases he
    exact diskDevice_moves _ _ _ _ hr

variable {l l' : Lhd} {u u' : Uio} {e : Option FsErr} {b : ℕ}

/-- One sector: the uio has moved if the result is 0, and has moved or not if it is EIO. -/
theorem lhdSector_advanced (hres : u.resid = lhdSectsize)
    (h : lhdSector l u b = .ok (e, l', u')) : (e = none → Advanced u u' lhdSectsize) ∧
      (e = some .eio → u' = u ∨ Advanced u u' lhdSectsize) := by
  have hle : lhdSectsize ≤ u.resid := le_of_eq hres.symm
  have hlt : u.resid < wordSize := by
    rw [hres]
    decide
  have hmoved : ∀ {ptr ptr' : Buffer} {u₁ : Uio}, uiomove ptr 0 lhdSectsize u = .ok (none, u₁, ptr') →
      Advanced u u₁ lhdSectsize := fun hm =>
    ⟨(uiomove_moved hm hle hlt).offset, (uiomove_moved hm hle hlt).resid⟩
  unfold lhdSector at h
  cases hrw : u.rw with
  | write =>
    rw [hrw] at h
    obtain ⟨⟨e₁, u₁, buf⟩, hm, h⟩ := Transition.bind_eq_ok.mp h
    simp only at h
    cases e₁ with
    | some e₁ =>
      obtain rfl := uiomoveLoop_error u.iov hm
      cases h
      exact ⟨fun he => (by cases he), fun he => (by cases he)⟩
    | none =>
      rw [if_neg (by simp)] at h
      simp only [pure, Except.pure, Except.ok.injEq, Prod.mk.injEq] at h
      obtain ⟨-, -, rfl⟩ := h
      exact ⟨fun _ => hmoved hm, fun _ => .inr (hmoved hm)⟩
  | read =>
    rw [hrw] at h
    simp only at h
    split_ifs at h with hok
    · obtain ⟨⟨e₁, u₁, buf⟩, hm, h⟩ := Transition.bind_eq_ok.mp h
      cases h
      refine ⟨fun he => ?_, fun he => ?_⟩
      · subst he
        exact hmoved hm
      · subst he
        cases uiomoveLoop_error u.iov hm
    · simp only [pure, Except.pure, Except.ok.injEq, Prod.mk.injEq] at h
      obtain ⟨rfl, -, rfl⟩ := h
      refine ⟨fun he => ?_, fun _ => .inl rfl⟩
      cases hn : l.next
      · exact absurd hn hok
      · rw [hn] at he
        cases he
      · rw [hn] at he
        cases he

/-- A call of the driver when there is nothing to do any more. -/
theorem lhdIo_nothing (hres : u.resid = 0) (h : lhdIo l u = .ok (e, l', u')) :
    u' = u ∧ e ≠ some .eio := by
  unfold lhdIo at h
  simp only [hres, Nat.zero_div, lhdLoop] at h
  split_ifs at h <;> cases h <;> exact ⟨rfl, by simp⟩

/-- **The retries of `sfs_rwblock`**: the uio is at the beginning or at the end of the sector. -/
theorem rwLoop_advanced (u₀ : Uio) (hres₀ : u₀.resid = lhdSectsize) (left : ℕ)
    (hu : u = u₀ ∨ Advanced u₀ u lhdSectsize) (h : rwLoop left l u = .ok (none, l', u')) :
    Advanced u₀ u' lhdSectsize := by
  -- a call of the driver
  have hcall : ∀ {l l₁ : Lhd} {u u₁ : Uio} {e₁ : Option FsErr},
      (u = u₀ ∨ Advanced u₀ u lhdSectsize) → lhdIo l u = .ok (e₁, l₁, u₁) →
      (e₁ = none → Advanced u₀ u₁ lhdSectsize) ∧
        (e₁ = some .eio → u₁ = u₀ ∨ Advanced u₀ u₁ lhdSectsize) := by
    intro l l₁ u u₁ e₁ hu hio
    rcases hu with rfl | hu
    · rw [lhdIo_sector hres₀] at hio
      split_ifs at hio
      · cases hio
        exact ⟨fun he => (by cases he), fun he => (by cases he)⟩
      · exact lhdSector_advanced hres₀ hio
    · have hz : u.resid = 0 := by
        have := hu.2
        omega
      obtain ⟨rfl, -⟩ := lhdIo_nothing hz hio
      exact ⟨fun _ => hu, fun _ => .inr hu⟩
  induction left generalizing l u with
  | zero =>
    rw [rwLoop] at h
    obtain ⟨⟨e₁, l₁, u₁⟩, hs, h⟩ := Transition.bind_eq_ok.mp h
    simp only at h
    split_ifs at h
    cases h
    exact (hcall hu hs).1 rfl
  | succ left ih =>
    rw [rwLoop] at h
    obtain ⟨⟨e₁, l₁, u₁⟩, hs, h⟩ := Transition.bind_eq_ok.mp h
    simp only at h
    split_ifs at h with hinval hio
    · exact ih ((hcall hu hs).2 hio) h
    · cases h
      exact (hcall hu hs).1 rfl

/-- **The driver moves the uio**, with its retries. -/
theorem lhdDevice_moves : Moves lhdDevice := by
  intro l q u l' h
  obtain ⟨⟨e, l₁, u₁⟩, hr, he⟩ := Transition.map_eq_ok h
  cases he
  exact rwLoop_advanced q.uio q.resid 10 (.inl rfl) hr

end Devices

/-! ### Runs -/

section Runs

variable {α β D : Type} {dev : Device D} {x : SfsM α} {f g : α → SfsM β} {m m' : SfsFs} {d d' : D}
  {ino n skipstart len fb : ℕ} {u u' u₀ : Uio} {bmap : ℕ → Bool → SfsM ℕ}

/-- A program that returns a result. -/
theorem runOn_bind_ok {b : β} (h : runOn dev (x >>= f) m d = .ok (.ok b, m', d')) :
    ∃ a m₁ d₁, runOn dev x m d = .ok (.ok a, m₁, d₁) ∧ runOn dev (f a) m₁ d₁ = .ok (.ok b, m', d') := by
  unfold runOn at h ⊢
  change Program.run dev (x.run >>= ExceptT.bindCont f) m d = _ at h
  rw [Program.run_bind] at h
  obtain ⟨⟨r, m₁, d₁⟩, hx, hf⟩ := Transition.bind_eq_ok.mp h
  cases r with
  | error e => cases hf
  | ok a => exact ⟨a, m₁, d₁, hx, hf⟩

/-- **Programs that go on in the same way** after the results of the first part. -/
theorem runOn_bind_congr (h : ∀ a m' d', runOn dev x m d = .ok (.ok a, m', d') →
    runOn dev (f a) m' d' = runOn dev (g a) m' d') :
    runOn dev (x >>= f) m d = runOn dev (x >>= g) m d := by
  unfold runOn at h ⊢
  change Program.run dev (x.run >>= ExceptT.bindCont f) m d =
    Program.run dev (x.run >>= ExceptT.bindCont g) m d
  rw [Program.run_bind, Program.run_bind]
  cases hx : Program.run dev x.run m d with
  | error p => rfl
  | ok r =>
    obtain ⟨r, m', d'⟩ := r
    cases r with
    | error e => rfl
    | ok a => exact h a m' d' hx

theorem runOn_congr_bind {y : SfsM α} (h : runOn dev x m d = runOn dev y m d) :
    runOn dev (x >>= f) m d = runOn dev (y >>= f) m d := by
  unfold runOn at h ⊢
  change Program.run dev (x.run >>= ExceptT.bindCont f) m d =
    Program.run dev (y.run >>= ExceptT.bindCont f) m d
  rw [Program.run_bind, Program.run_bind, h]

theorem runOn_kassert_ok {p : Prop} [Decidable p] {f : Unit → SfsM β} {b : β}
    (h : runOn dev (kassert p >>= f) m d = .ok (.ok b, m', d')) :
    p ∧ runOn dev (f ()) m d = .ok (.ok b, m', d') := by
  unfold kassert at h
  split_ifs at h with hp
  · exact ⟨hp, h⟩
  · cases h

theorem runOn_lift_ok {x : Except FsPanic α} {a : α} (h : runOn dev (lift x) m d = .ok (.ok a, m', d')) :
    x = .ok a ∧ m' = m ∧ d' = d := by
  cases x with
  | error p => cases h
  | ok b =>
    cases h
    exact ⟨rfl, rfl, rfl⟩

theorem runOn_attempt_ok {r : Except FsErr α}
    (h : runOn dev (attempt x) m d = .ok (.ok r, m', d')) : runOn dev x m d = .ok (r, m', d') := by
  rw [runOn_attempt] at h
  obtain ⟨⟨r', m₁, d₁⟩, hx, he⟩ := Transition.map_eq_ok h
  cases he
  exact hx

/-- **A block that no file has.** -/
theorem sfsBmap_efbig (h : sfsNdirect + sfsDbperidb ≤ fb) (doalloc : Bool) :
    sfsBmap ino fb doalloc = throw .efbig := by
  have hnd : sfsNdirect = 15 := rfl
  have hid : sfsDbperidb = 128 := rfl
  have hone : sfsNindirect = 1 := rfl
  unfold sfsBmap
  rw [if_neg (by omega)]
  simp only
  rw [if_pos]
  rw [hone]
  exact (Nat.le_div_iff_mul_le (by decide)).mpr (by omega)

/-- The number of a block that is found. -/
theorem lookup_lt {b : ℕ} (h : runOn dev (lookup ino u) m d = .ok (.ok b, m', d')) :
    u.offset / sfsBlocksize % wordSize < sfsNdirect + sfsDbperidb := by
  by_contra hge
  unfold lookup at h
  rw [sfsBmap_efbig (Nat.not_lt.mp hge)] at h
  cases h

/-- **A whole block that is transferred.** -/
theorem blockio_advanced (hdev : Moves dev) (hr : sfsBlocksize ≤ u.resid) (hlt : u.resid < wordSize)
    (h : runOn dev (sfsBlockio ino u) m d = .ok (.ok (none, u'), m', d')) :
    Advanced u u' sfsBlocksize ∧ u.offset / sfsBlocksize % wordSize < sfsNdirect + sfsDbperidb := by
  unfold sfsBlockio at h
  obtain ⟨r, m₁, d₁, hl, h⟩ := runOn_bind_ok h
  replace hl := runOn_attempt_ok hl
  cases r with
  | error e => cases h
  | ok b =>
    refine ⟨?_, lookup_lt hl⟩
    change runOn dev (blockTransfer u b) m₁ d₁ = _ at h
    unfold blockTransfer at h
    split_ifs at h with hb
    · obtain ⟨-, h⟩ := runOn_kassert_ok h
      exact uiomovezeros_advanced (runOn_lift_ok h).1 hr hlt
    · obtain ⟨-, h⟩ := runOn_kassert_ok h
      change (dev d₁ ⟨u.forDevice b, rfl⟩ >>= fun r => _) = _ at h
      obtain ⟨⟨⟨e, v⟩, d₂⟩, hv, h⟩ := Transition.bind_eq_ok.mp h
      have h' : (Except.ok (Except.ok (e, v.restore u b), m₁, d₂) :
          Except FsPanic (Except FsErr (Option FsErr × Uio) × SfsFs × D)) =
            .ok (.ok (none, u'), m', d') := h
      simp only [Except.ok.injEq, Prod.mk.injEq] at h'
      obtain ⟨⟨rfl, rfl⟩, -, -⟩ := h'
      obtain ⟨hoff, hres⟩ := hdev _ _ _ _ hv
      have ho : (u.forDevice b).offset = b * sfsBlocksize % wordSize := rfl
      have hz : (u.forDevice b).resid = sfsBlocksize := rfl
      change v.offset = (u.forDevice b).offset + sfsBlocksize at hoff
      change v.resid + sfsBlocksize = (u.forDevice b).resid at hres
      unfold Advanced Uio.restore
      simp only
      omega

/-- **A part of a block that is transferred.** -/
theorem partialio_advanced (hr : len ≤ u.resid) (hlt : u.resid < wordSize)
    (h : runOn dev (sfsPartialio ino u skipstart len) m d = .ok (.ok (none, u'), m', d')) :
    Advanced u u' len ∧ u.offset / sfsBlocksize % wordSize < sfsNdirect + sfsDbperidb := by
  unfold sfsPartialio at h
  obtain ⟨-, h⟩ := runOn_kassert_ok h
  obtain ⟨r, m₁, d₁, hl, h⟩ := runOn_bind_ok h
  replace hl := runOn_attempt_ok hl
  cases r with
  | error e => cases h
  | ok b =>
    refine ⟨?_, lookup_lt hl⟩
    obtain ⟨e, m₂, d₂, -, h⟩ := runOn_bind_ok h
    cases e with
    | some e => cases h
    | none =>
      change runOn dev (movePartial u b skipstart len) m₂ d₂ = _ at h
      unfold movePartial at h
      obtain ⟨m₃, _, d₃, -, h⟩ := runOn_bind_ok h
      obtain ⟨⟨e, u₁, buf⟩, m₄, d₄, hm, h⟩ := runOn_bind_ok h
      obtain ⟨_, m₅, d₅, -, h⟩ := runOn_bind_ok h
      cases e with
      | some e => cases h
      | none =>
        have hmove := uiomove_moved (runOn_lift_ok hm).1 hr hlt
        have hu : u' = u₁ := by
          simp only [Option.isSome_none, Bool.false_eq_true, if_false] at h
          split_ifs at h
          · obtain ⟨e, _, _, -, h⟩ := runOn_bind_ok h
            cases h
            rfl
          · cases h
            rfl
        rw [hu]
        exact ⟨hmove.offset, hmove.resid⟩

/-- The lookup is `sfs_bmap` for the requested blocks, and EFBIG for those that no file has. -/
structure Agrees (ino : ℕ) (u₀ : Uio) (bmap : ℕ → Bool → SfsM ℕ) : Prop where
  requested : ∀ fb doalloc, Requested u₀ fb → bmap fb doalloc = sfsBmap ino fb doalloc
  efbig : ∀ fb doalloc, sfsNdirect + sfsDbperidb ≤ fb → bmap fb doalloc = throw .efbig

/-- **The uio on its way**: it is in the range that was requested, and the number of its block is right
or out of range. -/
structure Within (u₀ u : Uio) : Prop where
  start : u₀.offset ≤ u.offset
  stop : u.offset + u.resid ≤ u₀.offset + u₀.resid
  number : u.offset / sfsBlocksize < wordSize ∨
    sfsNdirect + sfsDbperidb ≤ u.offset / sfsBlocksize % wordSize
  lt : u.resid < wordSize

theorem Within.advance (hw : Within u₀ u) (ha : Advanced u u' n) (hn : n ≤ sfsBlocksize)
    (hlow : u.offset / sfsBlocksize % wordSize < sfsNdirect + sfsDbperidb) : Within u₀ u' := by
  obtain ⟨hoff, hres⟩ := ha
  have hnum := hw.number.resolve_right (by omega)
  rw [Nat.mod_eq_of_lt hnum] at hlow
  have hs := hw.start
  have he := hw.stop
  have hlt := hw.lt
  refine ⟨by omega, by omega, .inl ?_, by omega⟩
  rw [hoff]
  unfold sfsBlocksize sfsNdirect sfsDbperidb wordSize at *
  omega

theorem Agrees.lookup (h : Agrees ino u₀ bmap) (hw : Within u₀ u)
    (hpos : 0 < u.resid ∨ sfsNdirect + sfsDbperidb ≤ u.offset / sfsBlocksize % wordSize) :
    lookupVia bmap u = SfsFs.lookup ino u := by
  unfold lookupVia SfsFs.lookup
  by_cases hlow : sfsNdirect + sfsDbperidb ≤ u.offset / sfsBlocksize % wordSize
  · rw [h.efbig _ _ hlow, sfsBmap_efbig hlow]
  · have hnum := hw.number.resolve_right hlow
    have hs := hw.start
    have he := hw.stop
    refine h.requested _ _ ⟨u.offset, hs, ?_, Nat.mod_eq_of_lt hnum⟩
    have := hpos.resolve_right hlow
    omega

theorem Agrees.partialio (h : Agrees ino u₀ bmap) (hw : Within u₀ u)
    (hpos : 0 < u.resid ∨ sfsNdirect + sfsDbperidb ≤ u.offset / sfsBlocksize % wordSize) :
    partialioVia bmap u skipstart len = sfsPartialio ino u skipstart len := by
  unfold partialioVia sfsPartialio
  rw [h.lookup hw hpos]
  rfl

theorem Agrees.blockio (h : Agrees ino u₀ bmap) (hw : Within u₀ u) (hpos : 0 < u.resid) :
    blockioVia bmap u = sfsBlockio ino u := by
  unfold blockioVia sfsBlockio
  rw [h.lookup hw (.inl hpos)]
  rfl

/-- **The loop over the whole blocks.** -/
theorem Agrees.ioBlocks (h : Agrees ino u₀ bmap) (hdev : Moves dev) (hw : Within u₀ u)
    (hn : n * sfsBlocksize ≤ u.resid) :
    runOn dev (ioBlocksVia bmap n u) m d = runOn dev (SfsFs.ioBlocks ino n u) m d ∧
      ∀ u' m' d', runOn dev (SfsFs.ioBlocks ino n u) m d = .ok (.ok (none, u'), m', d') →
        Within u₀ u' := by
  induction n generalizing u m d with
  | zero =>
    refine ⟨rfl, fun u' m' d' he => ?_⟩
    cases he
    exact hw
  | succ n ih =>
    rw [Nat.succ_mul] at hn
    have hblock : sfsBlocksize ≤ u.resid := by omega
    have hnext : ∀ {u' : Uio} {m' : SfsFs} {d' : D},
        runOn dev (sfsBlockio ino u) m d = .ok (.ok (none, u'), m', d') →
        Within u₀ u' ∧ n * sfsBlocksize ≤ u'.resid := fun he => by
      obtain ⟨ha, hlow⟩ := blockio_advanced hdev hblock hw.lt he
      refine ⟨hw.advance ha (le_refl _) hlow, ?_⟩
      have := ha.2
      omega
    have hpos : 0 < u.resid := lt_of_lt_of_le (by decide) hblock
    constructor
    · unfold ioBlocksVia SfsFs.ioBlocks
      rw [h.blockio hw hpos]
      refine runOn_bind_congr fun r m' d' he => ?_
      obtain ⟨e, u'⟩ := r
      cases e with
      | some e => rfl
      | none =>
        obtain ⟨hw', hn'⟩ := hnext he
        exact (ih hw' hn').1
    · intro u'' m'' d'' he
      unfold SfsFs.ioBlocks at he
      obtain ⟨⟨e, u'⟩, m', d', hb, he⟩ := runOn_bind_ok he
      cases e with
      | some e => cases he
      | none =>
        obtain ⟨hw', hn'⟩ := hnext hb
        exact (ih hw' hn').2 u'' m'' d'' he

/-- **The transfer** between the check for the end of the file and the label `out`. -/
theorem Agrees.ioTransfer (h : Agrees ino u₀ bmap) (hdev : Moves dev) (hw : Within u₀ u)
    (hempty : u.resid = 0 → u.offset % sfsBlocksize ≠ 0 →
      sfsNdirect + sfsDbperidb ≤ u.offset / sfsBlocksize % wordSize) :
    runOn dev (ioTransferVia bmap u) m d = runOn dev (SfsFs.ioTransfer ino u) m d := by
  have hlead : ioLeadVia bmap u = ioLead ino u := by
    unfold ioLeadVia ioLead
    simp only
    split_ifs with hoff
    · rfl
    · refine h.partialio hw ?_
      by_cases hz : u.resid = 0
      · exact .inr (hempty hz hoff)
      · exact .inl (by omega)
  unfold ioTransferVia SfsFs.ioTransfer
  rw [hlead]
  refine runOn_bind_congr fun r m₁ d₁ he => ?_
  obtain ⟨e, u₁⟩ := r
  simp only
  split_ifs with hstop
  · rfl
  rw [not_or] at hstop
  obtain ⟨hnone, hpos⟩ := hstop
  cases e with
  | some e => exact absurd rfl hnone
  | none =>
    have hw₁ : Within u₀ u₁ := by
      unfold ioLead at he
      simp only at he
      split_ifs at he with hoff
      · cases he
        exact hw
      · obtain ⟨ha, hlow⟩ := partialio_advanced (Nat.min_le_right _ _) hw.lt he
        exact hw.advance ha (le_trans (Nat.min_le_left _ _) (Nat.sub_le ..)) hlow
    refine runOn_bind_congr fun _ m₂ d₂ _ => ?_
    obtain ⟨hsame, hwithin⟩ := h.ioBlocks (m := m₂) (d := d₂) hdev hw₁
      (Nat.div_mul_le_self u₁.resid sfsBlocksize)
    have hrest : ∀ r m' d', runOn dev (SfsFs.ioBlocks ino (u₁.resid / sfsBlocksize) u₁) m₂ d₂ =
        .ok (.ok r, m', d') →
        runOn dev (if r.1.isSome then return (r.1, r.2) else ioTailVia bmap r.2) m' d' =
          runOn dev (if r.1.isSome then return (r.1, r.2) else ioTail ino r.2) m' d' := by
      rintro ⟨e, u₂⟩ m' d' he
      cases e with
      | some e => rfl
      | none =>
        have htail : ioTailVia bmap u₂ = ioTail ino u₂ := by
          unfold ioTailVia ioTail
          by_cases hz : u₂.resid = 0
          · simp only [if_pos hz]
          · rw [h.partialio (hwithin u₂ m' d' he) (.inl (by omega))]
        change runOn dev (ioTailVia bmap u₂) m' d' = runOn dev (ioTail ino u₂) m' d'
        rw [htail]
    exact (runOn_congr_bind hsame).trans (runOn_bind_congr hrest)

/-- **The number of the first block is right, or out of range.** -/
theorem onlyRequested_of (hdev : Moves dev) (hlt : u.resid < wordSize) (hno : ¬ Aliased ino u m) :
    OnlyRequested dev ino u m d := by
  intro bmap hreq hbig
  have ha : Agrees ino u bmap := ⟨hreq, hbig⟩
  unfold sfsIoVia sfsIo
  rw [runOn_get, runOn_get]
  simp only
  by_cases hread : u.rw = .read
  · by_cases hend : sfiSize (m.inode ino) ≤ u.offset
    · simp only [if_pos (And.intro hread hend)]
    have hwithin : u.offset < sfiSize (m.inode ino) := Nat.not_le.mp hend
    simp only [if_pos hread, if_neg fun h : _ ∧ _ => hend h.2]
    have hsize : sfiSize (m.inode ino) < wordSize := word_lt
    have hnum : u.offset / sfsBlocksize < wordSize := by
      unfold sfsBlocksize
      omega
    refine runOn_bind_congr fun _ m' d' _ => ?_
    have hw : Within u { u with resid := u.resid - (u.offset + u.resid - sfiSize (m.inode ino)) } := by
      refine ⟨le_refl _, ?_, .inl hnum, ?_⟩
      · change u.offset + (u.resid - _) ≤ _
        omega
      · change u.resid - _ < _
        omega
    have hsame := ha.ioTransfer (m := m') (d := d') hdev hw fun hz hoff => by
      change u.resid - _ = 0 at hz
      by_contra hlow
      exact hno ⟨fun _ => hwithin, Nat.not_le.mp hlow, .inl ⟨by omega, hoff⟩⟩
    exact runOn_congr_bind hsame
  · simp only [if_neg hread, if_neg fun h : _ ∧ _ => hread h.1]
    refine runOn_bind_congr fun _ m' d' _ => ?_
    refine runOn_congr_bind ?_
    rw [Nat.sub_zero]
    by_cases hnone : u.resid = 0 ∧ u.offset % sfsBlocksize = 0
    · unfold ioTransferVia ioTransfer ioLeadVia ioLead
      simp only [if_pos hnone.2, pure_bind, hnone.1, or_true, if_true]
    have hnum : u.offset / sfsBlocksize < wordSize ∨
        sfsNdirect + sfsDbperidb ≤ u.offset / sfsBlocksize % wordSize := by
      by_contra hbad
      rw [not_or, not_lt, not_le] at hbad
      refine hno ⟨fun hr => absurd hr hread, hbad.2, ?_⟩
      have hfar : 2 ^ 41 ≤ u.offset := by
        have := hbad.1
        unfold wordSize sfsBlocksize at this
        omega
      by_cases hz : u.resid = 0
      · exact .inl ⟨hz, fun hoff => hnone ⟨hz, hoff⟩⟩
      · exact .inr ⟨by omega, hfar⟩
    refine ha.ioTransfer hdev ⟨le_refl _, le_refl _, hnum, hlt⟩ fun hz hoff => ?_
    by_contra hlow
    exact hno ⟨fun hr => absurd hr hread, Nat.not_le.mp hlow, .inl ⟨hz, hoff⟩⟩

/-- A first lookup that fails. -/
theorem ioTransferVia_throw {e : FsErr} (hl : lookupVia bmap u = throw e)
    (hz : u.resid = 0 → u.offset % sfsBlocksize ≠ 0) :
    runOn dev (ioTransferVia bmap u) m d = .ok (.ok (some e, u), m, d) := by
  have hpiece : ∀ {s l : ℕ}, s + l ≤ sfsBlocksize →
      runOn dev (partialioVia bmap u s l) m d = .ok (.ok (some e, u), m, d) := fun hle => by
    unfold partialioVia
    rw [kassert, if_pos hle, hl]
    rfl
  unfold ioTransferVia ioLeadVia
  simp only
  by_cases hoff : u.offset % sfsBlocksize = 0
  · have hpos : u.resid ≠ 0 := fun h0 => hz h0 hoff
    rw [if_pos hoff, pure_bind]
    simp only [Option.isSome_none, Bool.false_eq_true, hpos, or_self, if_false, kassert, if_pos hoff]
    change runOn dev (ioBlocksVia bmap (u.resid / sfsBlocksize) u >>= _) m d = _
    cases hn : u.resid / sfsBlocksize with
    | zero =>
      have hlt : u.resid < sfsBlocksize := (Nat.div_eq_zero_iff_lt (by decide)).mp hn
      change runOn dev (ioTailVia bmap u) m d = _
      unfold ioTailVia
      rw [kassert, if_pos hlt, if_neg hpos]
      exact hpiece (by omega)
    | succ n =>
      unfold ioBlocksVia blockioVia
      rw [hl]
      rfl
  · rw [if_neg hoff]
    have hmod : u.offset % sfsBlocksize < sfsBlocksize := Nat.mod_lt _ (by decide)
    exact runOn_bind (hpiece (by omega))

/-- **A first lookup that fails** is the end of `sfs_io`. -/
theorem sfsIoVia_throw {e : FsErr} (h : Aliased ino u m) (hl : lookupVia bmap u = throw e) :
    ∃ u', runOn dev (sfsIoVia bmap ino u) m d = .ok (.ok (some e, u'), m, d) := by
  have hempty : u.resid = 0 → u.offset % sfsBlocksize ≠ 0 := fun h0 => by
    rcases h.far with hz | hz
    · exact hz.2
    · omega
  unfold sfsIoVia
  rw [runOn_get]
  simp only
  by_cases hread : u.rw = .read
  · have hwithin := h.within hread
    have hsize : sfiSize (m.inode ino) < wordSize := word_lt
    have hz : u.resid = 0 := by
      rcases h.far with hz | hz
      · exact hz.1
      · unfold wordSize at hsize
        omega
    have hextra : u.offset + u.resid - sfiSize (m.inode ino) = 0 := by omega
    simp only [if_pos hread, if_neg fun h : u.rw = .read ∧ sfiSize (m.inode ino) ≤ u.offset =>
      absurd h.2 (Nat.not_le.mpr hwithin), hextra, kassert, true_or, if_true, pure_bind,
      Nat.sub_zero]
    refine ⟨{ u with resid := wadd u.resid 0 }, (runOn_bind (ioTransferVia_throw hl hempty)).trans ?_⟩
    unfold ioOut
    simp only [bind_assoc]
    rw [runOn_get, if_neg (by simp)]
    rfl
  · simp only [if_neg hread, if_neg fun h : u.rw = .read ∧ sfiSize (m.inode ino) ≤ u.offset =>
      absurd h.1 hread, kassert, true_or, if_true, pure_bind, Nat.sub_zero]
    refine ⟨{ u with resid := wadd u.resid 0 }, (runOn_bind (ioTransferVia_throw hl hempty)).trans ?_⟩
    unfold ioOut
    simp only [bind_assoc]
    rw [runOn_get, if_neg (by simp)]
    rfl

/-- **A lookup that is not requested.** -/
theorem not_onlyRequested (h : Aliased ino u m) : ¬ OnlyRequested dev ino u m d := by
  intro honly
  have hstray : ∀ e : FsErr, ∃ u', runOn dev (sfsIo ino u) m d = .ok (.ok (some e, u'), m, d) := by
    intro e
    -- the lookup fails for the block that is not requested
    have hsame := honly (fun fb doalloc => if fb = u.offset / sfsBlocksize % wordSize then throw e
      else sfsBmap ino fb doalloc) (fun fb doalloc hreq => if_neg ?_) fun fb doalloc hge => ?_
    · rw [← hsame]
      exact sfsIoVia_throw h (if_pos rfl)
    · rintro rfl
      obtain ⟨p, h₁, h₂, h₃⟩ := hreq
      have hmod := Nat.mod_lt (u.offset / sfsBlocksize) (show 0 < wordSize by decide)
      rcases h.far with hz | hz
      · omega
      · unfold sfsBlocksize wordSize at *
        omega
    · rw [if_neg (by have := h.low; omega), sfsBmap_efbig hge]
  obtain ⟨u₁, h₁⟩ := hstray .eio
  obtain ⟨u₂, h₂⟩ := hstray .enospc
  cases h₁.symm.trans h₂

/-- **`sfs_io` touches the requested blocks only** exactly if its first block number is right, or out of
range. -/
theorem onlyRequested_iff (hdev : Moves dev) (hlt : u.resid < wordSize) :
    OnlyRequested dev ino u m d ↔ ¬ Aliased ino u m :=
  ⟨fun honly h => not_onlyRequested h honly, onlyRequested_of hdev hlt⟩

end Runs

/-! ### The length -/

section Length

variable {I : ℕ → Prop} {ino : ℕ} {len : ℤ} {v w : Vol} {d : FlakyDisk}

/-- The file is as it was: its inode, the marks of its blocks, and the disk. -/
structure Unchanged (ino : ℕ) (v w : Vol) : Prop where
  inode : w.inodeWords ino = v.inodeWords ino
  freemap : w.fs.freemap = v.fs.freemap
  disk : w.disk = v.disk

/-- **`sfs_itrunc` records the length**, or fails and leaves the file as it was. -/
def RecordsOrFails (v : Vol) (ino : ℕ) (len : ℤ) (d : FlakyDisk) : Prop :=
  ∀ r m d', runOn flakyDevice (sfsItrunc ino len) v.fs d = .ok (r, m, d') →
    (r = .ok () → (sfiSize (m.inode ino) : ℤ) = len) ∧ ∀ e, r = .error e → Unchanged ino v ⟨m, d'.disk⟩

/-- **When the length is kept**: if the indirect block is due and cannot be read, no direct block was
cut before; otherwise it can be written, and the length is below 2^32. -/
structure LengthKept (v : Vol) (ino : ℕ) (len : ℤ) (d : FlakyDisk) : Prop where
  read_fails : LooksAtIndirect v ino len → d.fails 0 ≠ none →
    ∀ fb < sfsNdirect, truncBlocklen len ≤ fb → v.blockOf ino fb = 0
  otherwise : ¬ (LooksAtIndirect v ino len ∧ d.fails 0 ≠ none) →
    ¬ WriteBackFails v ino len d ∧ len < wordSize

theorem size_setSize (m : SfsFs) : sfiSize ((setSize m ino len).inode ino) = (len % wordSize).toNat := by
  have hlt := Int.emod_lt_of_pos len (show (0 : ℤ) < wordSize by decide)
  have hnn := Int.emod_nonneg len (show (wordSize : ℤ) ≠ 0 by decide)
  have hws : wordSize = 2 ^ 32 := rfl
  unfold setSize sfiSize
  rw [inode_setInode, word_setWord (by omega), if_pos rfl]

theorem size_eq_iff (hlen : 0 ≤ len) : ((len % wordSize).toNat : ℤ) = len ↔ len < wordSize := by
  have hlt := Int.emod_lt_of_pos len (show (0 : ℤ) < wordSize by decide)
  have hnn := Int.emod_nonneg len (show (wordSize : ℤ) ≠ 0 by decide)
  rw [Int.toNat_of_nonneg hnn]
  exact ⟨fun he => he ▸ hlt, fun h => Int.emod_eq_of_lt hlen h⟩

/-- No direct block is cut. -/
theorem DirectDone.unchanged_iff (h : DirectDone I ino len v w) : Unchanged ino v w ↔
    ∀ fb < sfsNdirect, truncBlocklen len ≤ fb → v.blockOf ino fb = 0 := by
  constructor
  · intro hw fb hfb hle
    rw [blockOf_direct hfb, ← hw.inode, h.cut.words, if_pos (by omega)]
  · intro h0
    refine ⟨funext fun i => ?_, funext fun c => ?_, h.cut.disk⟩
    · rw [h.cut.words]
      split_ifs with hi
      · have hz := h0 (i - 2) (by omega) hi.2.2
        rw [blockOf_direct (by omega), Nat.add_sub_cancel' hi.1] at hz
        exact hz.symm
      · rfl
    · refine Bool.eq_iff_iff.mpr ((h.cut.freemap c).trans (and_iff_left ?_))
      rintro ⟨j, hj, hle, he, hne⟩
      exact hne (he.symm.trans (h0 j hj hle))

theorem Unchanged.refers {b : ℕ} (h : Unchanged ino v w) (hr : Refers w ino b) : Refers v ino b := by
  have hind : w.indirect ino = v.indirect ino := congrFun h.inode 17
  have hmap : w.blockOf ino = v.blockOf ino := Vol.blockOf_congr h.inode fun _ => by rw [h.disk]
  unfold Refers at hr ⊢
  rwa [hind, hmap] at hr

/-- **The length that `sfs_itrunc` records.** -/
theorem recordsOrFails_iff (h : v.Physical I) (hino : I ino) (hload : ino ∈ v.fs.vnodes)
    (hd : d.disk = v.disk) (hlen : 0 ≤ len) :
    RecordsOrFails v ino len d ↔ LengthKept v ino len d := by
  obtain ⟨r, m, d', hrun, hres⟩ := runOn_itrunc h hino hload len hd
  have honly : RecordsOrFails v ino len d ↔ (r = .ok () → (sfiSize (m.inode ino) : ℤ) = len) ∧
      ∀ e, r = .error e → Unchanged ino v ⟨m, d'.disk⟩ := by
    refine ⟨fun hk => hk r m d' hrun, fun hk r₁ m₁ d₁ he => ?_⟩
    cases hrun.symm.trans he
    exact hk
  rw [honly]
  cases hres with
  | skipped direct hno =>
    rw [size_setSize, size_eq_iff hlen]
    constructor
    · rintro ⟨hsize, -⟩
      exact ⟨fun hlook => absurd hlook hno, fun _ => ⟨fun hf => hno hf.look, hsize rfl⟩⟩
    · exact fun hk => ⟨fun _ => (hk.otherwise fun hf => hno hf.1).2, fun e he => by cases he⟩
  | @readFails w e direct hlook hread =>
    have hne : d.fails 0 ≠ none := by
      rw [hread]
      simp
    have hw : (⟨w.fs, (d.next d.disk).disk⟩ : Vol) = w := by
      change (⟨w.fs, d.disk⟩ : Vol) = w
      rw [hd, ← direct.cut.disk]
    rw [hw, direct.unchanged_iff]
    constructor
    · rintro ⟨-, hk⟩
      exact ⟨fun _ _ => hk e rfl, fun hno => absurd ⟨hlook, hne⟩ hno⟩
    · exact fun hk => ⟨fun he => (by cases he), fun _ _ => hk.read_fails hlook hne⟩
  | @writeFails w w' e direct hlook hread entries hwrite =>
    obtain ⟨hkept, hcut⟩ := entries.flags_iff.mp rfl
    have hf : WriteBackFails v ino len d := by
      rw [direct.cut.entries] at hkept hcut
      exact ⟨hlook, hread, ⟨e, hwrite⟩, hkept, hcut⟩
    refine iff_of_false (fun hk => ?_) fun hk => ?_
    · obtain ⟨j, hj, h0⟩ := hcut
      obtain ⟨hrefers, hfree⟩ := entries.free_refers hj h0
      have hdisk : ((d.next d.disk).next d.disk).disk = w.disk := hd.trans direct.cut.disk.symm
      have hsame := hk.2 e rfl
      rw [hdisk] at hsame
      have hmark := (hsame.refers hrefers).marked h hino h0
      rw [← hsame.freemap, hfree] at hmark
      cases hmark
    · exact (hk.otherwise fun hn => hn.2 hread).1 hf
  | done direct hlook hread entries hok hdisk =>
    rw [size_setSize, size_eq_iff hlen]
    constructor
    · rintro ⟨hsize, -⟩
      refine ⟨fun _ hne => absurd hread hne, fun _ => ⟨fun hf => ?_, hsize rfl⟩⟩
      obtain ⟨e, hwrite⟩ := hf.write
      have hflags := entries.flags_iff.mpr (by
        rw [direct.cut.entries]
        exact ⟨hf.kept, hf.cut⟩)
      rw [hok hflags] at hwrite
      cases hwrite
    · exact fun hk => ⟨fun _ => (hk.otherwise fun hn => hn.2 hread).2, fun e he => by cases he⟩

/-- **Offsets and lengths of 64 bits**: on every device whose transfers move the uio, `sfs_io` touches
the requested blocks only exactly if its first block number is right or out of range; and `sfs_itrunc`
records its length or fails without a change exactly when the length is kept. -/
theorem narrow_iff (h : v.Physical I) (hino : I ino) (hload : ino ∈ v.fs.vnodes)
    (d : FlakyDisk) (hd : d.disk = v.disk) (u : Uio) (hu : u.resid < wordSize) (len : ℤ)
    (hlen : 0 ≤ len) :
    (∀ {D : Type} (dev : Device D), Moves dev → ∀ m e,
      OnlyRequested dev ino u m e ↔ ¬ Aliased ino u m) ∧
    (RecordsOrFails v ino len d ↔ LengthKept v ino len d) :=
  ⟨fun _ hdev _ _ => onlyRequested_iff hdev hu, recordsOrFails_iff h hino hload hd hlen⟩

/-- A request to write 512 bytes at an offset. -/
def writeAt (offset : ℕ) : Uio := { writeUio sfsBlocksize (fun _ => 0) with offset := offset }

theorem narrow_iff_twoEntries :
    (∀ {D : Type} (dev : Device D), Moves dev → ∀ m e,
      OnlyRequested dev layoutIno (writeAt 512) m e ↔ ¬ Aliased layoutIno (writeAt 512) m) ∧
    (RecordsOrFails twoEntries.vol layoutIno 7680 (failsOnce twoEntries.vol.disk 0) ↔
      LengthKept twoEntries.vol layoutIno 7680 (failsOnce twoEntries.vol.disk 0)) :=
  narrow_iff Layout.physical (.inr rfl) Layout.mem_vnodes _ rfl _ (by decide) 7680 (by decide)

/-- **A write at 2^41 and a truncation to 2^32**: the lookup is that of block 0, and the size is 0. -/
theorem narrow_aliased :
    ¬ OnlyRequested flakyDevice layoutIno (writeAt (2 ^ 41)) twoEntries.vol.fs
      (failsOnce twoEntries.vol.disk 9) ∧
    ∃ m d', runOn flakyDevice (sfsItrunc layoutIno (2 ^ 32)) twoEntries.vol.fs
      (failsOnce twoEntries.vol.disk 9) = .ok (.ok (), m, d') ∧ sfiSize (m.inode layoutIno) = 0 := by
  refine ⟨not_onlyRequested ⟨fun hr => (by cases hr), by decide, .inr ⟨by decide, by decide⟩⟩, ?_⟩
  have hno : ¬ LooksAtIndirect twoEntries.vol layoutIno (2 ^ 32) := fun hlook =>
    absurd hlook.1 (by decide)
  obtain ⟨r, m, d', hrun, hres⟩ := runOn_itrunc (d := failsOnce twoEntries.vol.disk 9)
    Layout.physical (.inr rfl) Layout.mem_vnodes (2 ^ 32) rfl
  cases hres with
  | skipped direct _ => exact ⟨_, _, hrun, by rw [size_setSize]; decide⟩
  | readFails _ hlook _ => exact absurd hlook hno
  | writeFails _ hlook _ _ _ => exact absurd hlook hno
  | done _ hlook _ _ _ _ => exact absurd hlook hno

end Length

end SfsFs

end Os161
