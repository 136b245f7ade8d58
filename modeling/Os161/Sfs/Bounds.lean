import Os161.Sfs.Narrow
import Os161.Sfs.Superblock

set_option autoImplicit false

/-!
# The number of blocks in the superblock

`sfs_domount` takes `sb_nblocks` from the disk. The freemap has that many bits, rounded up on words;
the device may have fewer sectors, about which there is a warning. All of this is on the device with
its failures and the retries of `sfs_rwblock`.

* `Lhd.Honest`: the device does not say that a sector which it has is invalid.
* `Reached`: what the memory and the device may be some programs after the mount; **`reached_run`**:
  the calls of a volume are such programs.
* `BlockLimits`: what the functions on a block do.
* **`domount_limits`**: after a mount, transfers and allocations of a block stop the machine if and
  only if the device does not have it.
-/

namespace Os161

open Buffer

/-- No command ends with `LHD_INVSECT`. -/
def Lhd.Honest (l : Lhd) : Prop := ∀ n, (l.answer n).1 ≠ .invsect

namespace SfsFs

variable {α β : Type}

/-- The program stops the machine. -/
def Stops (x : SfsM α) (m : SfsFs) (l : Lhd) : Prop := ∃ p, runOn lhdDevice x m l = .error p

/-- **The memory and the device some programs later**, none of which assigns the superblock. -/
inductive Reached (m : SfsFs) (l : Lhd) : SfsFs → Lhd → Prop
  | mounted : Reached m l m l
  | run {γ : Type} {x : SfsM γ} {r : Except FsErr γ} {m₁ m₂ : SfsFs} {l₁ l₂ : Lhd}
    (h : Reached m l m₁ l₁) (keeps : KeepsSb x) (run : runOn lhdDevice x m₁ l₁ = .ok (r, m₂, l₂)) :
    Reached m l m₂ l₂

/-- **The limits of block `b`**: it has a bit, its bit can be read, and it can be transferred and
allocated if the device has it. -/
structure BlockLimits (m : SfsFs) (l : Lhd) (b : ℕ) : Prop where
  bit : b < m.freemapBits
  bused : ¬ Stops (sfsBused b) m l
  readblock : Stops (sfsReadblock b) m l ↔ l.nsect ≤ b
  writeblock : ∀ data, Stops (sfsWriteblock b data) m l ↔ l.nsect ≤ b
  balloc : m.bitmapAlloc = some b → (Stops sfsBalloc m l ↔ l.nsect ≤ b)

/-- A call of the volume, with what is left of the memory and the device. -/
def callOn (s : SfsFs × Lhd) (op : SfsOp) : Except FsPanic (SfsFs × Lhd) :=
  (runOn lhdDevice op.prog s.1 s.2).map Prod.snd

end SfsFs

/-! ## The device -/

section Device

variable {l l' : Lhd} {u u' : Uio} {e : Option FsErr} {b : ℕ}

theorem Lhd.command_nsect (b : ℕ) (w : Bool) : (l.command b w).nsect = l.nsect := by
  unfold Lhd.command
  simp only
  cases l.next <;> cases w <;> rfl

theorem lhdSector_nsect (h : lhdSector l u b = .ok (e, l', u')) : l'.nsect = l.nsect := by
  unfold lhdSector at h
  cases hrw : u.rw with
  | write =>
    rw [hrw] at h
    obtain ⟨⟨e₁, u₁, buf⟩, -, h⟩ := Transition.bind_eq_ok.mp h
    simp only at h
    split_ifs at h
    · cases h
      rfl
    · cases h
      exact Lhd.command_nsect b true
  | read =>
    rw [hrw] at h
    simp only at h
    split_ifs at h
    · obtain ⟨⟨e₁, u₁, buf⟩, -, h⟩ := Transition.bind_eq_ok.mp h
      cases h
      exact Lhd.command_nsect b false
    · cases h
      exact Lhd.command_nsect b false

theorem lhdLoop_nsect (n : ℕ) (h : lhdLoop n b l u = .ok (e, l', u')) : l'.nsect = l.nsect := by
  induction n generalizing b l u with
  | zero =>
    cases h
    rfl
  | succ n ih =>
    rw [lhdLoop] at h
    obtain ⟨⟨e₁, l₁, u₁⟩, hs, h⟩ := Transition.bind_eq_ok.mp h
    have hone := lhdSector_nsect hs
    simp only at h
    split_ifs at h
    · cases h
      exact hone
    · exact (ih h).trans hone

theorem lhdIo_nsect (h : lhdIo l u = .ok (e, l', u')) : l'.nsect = l.nsect := by
  unfold lhdIo at h
  simp only at h
  split_ifs at h
  · cases h
    rfl
  · cases h
    rfl
  · exact lhdLoop_nsect (l := { l with calls := l.calls + 1 }) _ h

/-- **The retries** do not change the size of the device, nor how its commands end. -/
theorem rwLoop_same (left : ℕ) (h : rwLoop left l u = .ok (e, l', u')) :
    l'.nsect = l.nsect ∧ l'.answer = l.answer := by
  have hone : ∀ {l l₁ : Lhd} {u u₁ : Uio} {e₁ : Option FsErr}, lhdIo l u = .ok (e₁, l₁, u₁) →
      l₁.nsect = l.nsect ∧ l₁.answer = l.answer := fun h => ⟨lhdIo_nsect h, (lhdIo_later h).answer⟩
  induction left generalizing l u with
  | zero =>
    rw [rwLoop] at h
    obtain ⟨⟨e₁, l₁, u₁⟩, hs, h⟩ := Transition.bind_eq_ok.mp h
    simp only at h
    split_ifs at h
    cases h
    exact hone hs
  | succ left ih =>
    rw [rwLoop] at h
    obtain ⟨⟨e₁, l₁, u₁⟩, hs, h⟩ := Transition.bind_eq_ok.mp h
    simp only at h
    split_ifs at h
    · exact ⟨(ih h).1.trans (hone hs).1, (ih h).2.trans (hone hs).2⟩
    · cases h
      exact hone hs

theorem lhdDevice_same {q : SectorIo} {r : SectorReply} (h : lhdDevice l q = .ok (r, l')) :
    l'.nsect = l.nsect ∧ l'.answer = l.answer := by
  obtain ⟨⟨e, l₁, u₁⟩, hr, he⟩ := Transition.map_eq_ok h
  cases he
  exact rwLoop_same 10 hr

/-- **A sector that the device does not have**: the driver returns EINVAL, and `sfs_rwblock` panics. -/
theorem lhdDevice_beyond {q : SectorIo} (hoff : q.uio.offset = b * sfsBlocksize) (hb : l.nsect ≤ b)
    (hlt : b + 1 < wordSize) : lhdDevice l q = .error .devopEinval := by
  have hsector : q.uio.offset / lhdSectsize % wordSize = b :=
    SfsFs.sector_of_offset hoff (by omega)
  have hio : lhdIo l q.uio = .ok (some .einval, { l with calls := l.calls + 1 }, q.uio) := by
    rw [lhdIo_sector q.resid, hsector, wadd_of_lt hlt, if_pos (.inr (by omega))]
  rw [lhdDevice, sfsRwblock, rwLoop_of_lhdIo hio (by decide)]
  rfl

/-- A sector that the device has. -/
theorem lhdDevice_within {q : SectorIo} (h : l.Honest) (hs : q.uio.ForSector b) (hb : b < l.nsect)
    (ha : q.uio.Accessible lhdSectsize) : ∃ r l', lhdDevice l q = .ok (r, l') := by
  have hdone : ∀ {e : Option FsErr} {l' : Lhd} {u' : Uio}, rwLoop 10 l q.uio = .ok (e, l', u') →
      ∃ r l', lhdDevice l q = .ok (r, l') := fun {e l' u'} he => by
    refine ⟨(e, u'), l', ?_⟩
    rw [lhdDevice, sfsRwblock, he]
    rfl
  cases hrw : q.uio.rw with
  | read =>
    rcases rwLoop_read hs hb hrw 10 with
      ⟨-, d', hr, -⟩ | ⟨j, -, he, -⟩ | ⟨j, -, -, -, d', u', hr, -⟩ | ⟨j, -, -, -, d', u', hr, -⟩
    · exact hdone hr
    · exact absurd he.2 (h _)
    · exact hdone hr
    · exact hdone hr
  | write =>
    rcases rwLoop_write hs hb hrw ha 10 (by decide) with ⟨hs, -⟩ | ⟨u', -, -, ⟨-, hr⟩ | ⟨-, hr⟩⟩
    · exact absurd hs (h _)
    · exact hdone hr
    · exact hdone hr

end Device

namespace SfsFs

/-! ## Programs -/

section Programs

variable {α β D : Type} {dev : Device D} {x : SfsM α} {f : α → SfsM β} {m m' : SfsFs} {d d' : D}
  {l l' : Lhd} {b : ℕ}

theorem runOn_bind_stop {p : FsPanic} (h : runOn dev x m d = .error p) :
    runOn dev (x >>= f) m d = .error p := by
  unfold runOn at h ⊢
  change Program.run dev (x.run >>= ExceptT.bindCont f) m d = _
  rw [Program.run_bind, h]
  rfl

/-- A request and what is done with the reply. -/
theorem runOn_rwblock {q : SfsFs → SectorIo} {g : SectorReply → SfsM β} :
    runOn dev (sfsRwblock q >>= g) m d = dev d (q m) >>= fun r => runOn dev (g r.1) m r.2 := by
  unfold runOn sfsRwblock
  change Program.run dev (Program.request q >>= fun r => (g r).run) m d = _
  rw [Program.run_bind, Program.run_request]
  cases dev d (q m) <;> rfl

/-- A program that hands its result code on. -/
theorem runOn_status {r : Except FsErr α} (h : runOn dev x m d = .ok (r, m', d')) :
    runOn dev (status x) m d = .ok (.ok (code r), m', d') := by
  unfold status
  rw [runOn_bind (a := r) (by rw [runOn_attempt, h]; rfl)]
  cases r <;> rfl

theorem runOn_status_stop {p : FsPanic} (h : runOn dev x m d = .error p) :
    runOn dev (status x) m d = .error p :=
  runOn_bind_stop (by rw [runOn_attempt, h]; rfl)

/-- **The device after a program** has its size, and its commands end as they would have. -/
theorem runOn_same {r : Except FsErr α} (h : runOn lhdDevice x m l = .ok (r, m', l')) :
    l'.nsect = l.nsect ∧ l'.answer = l.answer := by
  have htrans : ∀ l₁ l₂ l₃ : Lhd, l₂.nsect = l₁.nsect ∧ l₂.answer = l₁.answer →
      l₃.nsect = l₂.nsect ∧ l₃.answer = l₂.answer → l₃.nsect = l₁.nsect ∧ l₃.answer = l₁.answer :=
    fun _ _ _ h₁ h₂ => ⟨h₂.1.trans h₁.1, h₂.2.trans h₁.2⟩
  exact Program.run_of_sent (P := fun _ => True) (fun _ => ⟨rfl, rfl⟩) htrans
    (fun _ _ _ _ _ hq => lhdDevice_same hq) _ _ _ _ _ (fun _ _ => trivial) h

/-- **`sfs_readblock`** panics exactly if the device does not have the block. -/
theorem stops_readblock (h : l.Honest) (hlt : b + 1 < wordSize) :
    Stops (sfsReadblock b) m l ↔ l.nsect ≤ b := by
  unfold Stops sfsReadblock
  rw [runOn_rwblock]
  refine ⟨fun hstop => ?_, fun hb => ⟨.devopEinval, ?_⟩⟩
  · by_contra hb
    obtain ⟨⟨e, u⟩, l₁, he⟩ := lhdDevice_within (q := ⟨sfsuio (fun _ => 0) b .read, rfl⟩) h
      (sfsuio_forSector _ _) (Nat.not_le.mp hb) (.inl rfl)
    obtain ⟨p, hp⟩ := hstop
    rw [he] at hp
    cases e <;> cases hp
  · rw [lhdDevice_beyond rfl hb hlt]
    rfl

/-- **`sfs_writeblock`** panics exactly if the device does not have the block. -/
theorem stops_writeblock {data : SfsFs → Buffer} (h : l.Honest) (hlt : b + 1 < wordSize) :
    Stops (sfsWriteblock b data) m l ↔ l.nsect ≤ b := by
  unfold Stops sfsWriteblock
  rw [runOn_rwblock]
  refine ⟨fun hstop => ?_, fun hb => ⟨.devopEinval, ?_⟩⟩
  · by_contra hb
    obtain ⟨⟨e, u⟩, l₁, he⟩ := lhdDevice_within (q := ⟨sfsuio (data m) b .write, rfl⟩) h
      (sfsuio_forSector _ _) (Nat.not_le.mp hb) (.inl rfl)
    obtain ⟨p, hp⟩ := hstop
    rw [he] at hp
    cases e <;> cases hp
  · rw [lhdDevice_beyond rfl hb hlt]
    rfl

/-- A transfer leaves the memory as it is. -/
theorem runOn_writeblock_fs {data : SfsFs → Buffer} {r : Except FsErr Unit}
    (h : runOn dev (sfsWriteblock b data) m d = .ok (r, m', d')) : m' = m := by
  unfold sfsWriteblock at h
  rw [runOn_rwblock] at h
  obtain ⟨⟨⟨e, u⟩, d₁⟩, -, h⟩ := Transition.bind_eq_ok.mp h
  cases e <;> cases h <;> rfl

/-- **`sfs_balloc`** of a block of the volume panics exactly if the device does not have it. -/
theorem stops_balloc (h : l.Honest) (hlt : b + 1 < wordSize) (hb : b < m.nblocks)
    (hpick : m.bitmapAlloc = some b) : Stops sfsBalloc m l ↔ l.nsect ≤ b := by
  have hbit : b < m.freemapBits := List.mem_range.mp (List.mem_of_find?_eq_some hpick)
  set w : SfsFs := { m.setFreemap b true with freemapdirty := true } with hw
  have hclear : Stops (sfsClearblock b) w l ↔ l.nsect ≤ b := stops_writeblock h hlt
  have hrun : runOn lhdDevice sfsBalloc m l = runOn lhdDevice (ballocClear b) w l := by
    unfold sfsBalloc
    rw [runOn_get, hpick]
    change runOn lhdDevice (if m.nblocks ≤ b then _ else _) w l = _
    rw [if_neg (Nat.not_le.mpr hb)]
  have hmark : w.freemap b = true := Function.update_self ..
  unfold Stops
  rw [hrun, ballocClear]
  refine ⟨fun hstops => ?_, fun hbeyond => ?_⟩
  · obtain ⟨p, hp⟩ := hstops
    by_contra hin
    cases hc : runOn lhdDevice (sfsClearblock b) w l with
    | error p => exact hin (hclear.mp ⟨p, hc⟩)
    | ok a =>
      obtain ⟨r, w', l'⟩ := a
      obtain rfl := runOn_writeblock_fs hc
      rw [runOn_bind (runOn_status hc)] at hp
      cases r with
      | ok _ => cases hp
      | error e =>
        -- the bit that was set is cleared again
        have hunmark : runOn lhdDevice (bitmapUnmark b) w l' =
            .ok (.ok (), w.setFreemap b false, l') := by
          unfold bitmapUnmark kassert
          rw [runOn_get, if_pos (show b < w.freemapBits from hbit), if_pos hmark]
          rfl
        change runOn lhdDevice (bitmapUnmark b >>= fun _ => throw e) w l' = _ at hp
        rw [runOn_bind hunmark] at hp
        cases hp
  · obtain ⟨p, hp⟩ := hclear.mpr hbeyond
    exact ⟨p, runOn_bind_stop (runOn_status_stop hp)⟩

end Programs

/-! ## The mount -/

section Mount

variable {m m₁ m₂ : SfsFs} {l l₁ l₂ : Lhd} {b : ℕ}

/-- **Later** the superblock in memory, the size of the device and its failures are the same. -/
theorem Reached.same (h : Reached m l m₁ l₁) :
    m₁.sb = m.sb ∧ l₁.nsect = l.nsect ∧ l₁.answer = l.answer := by
  induction h with
  | mounted => exact ⟨rfl, rfl, rfl⟩
  | run _ keeps run ih =>
    obtain ⟨hn, ha⟩ := runOn_same run
    exact ⟨(keeps.sb run).trans ih.1, hn.trans ih.2.1, ha.trans ih.2.2⟩

/-- **The calls of a volume** lead to what may be later. -/
theorem reached_run {ops : List SfsOp} {s : SfsFs × Lhd}
    (h : Transition.run callOn (m, l) ops = .ok s) : Reached m l s.1 s.2 := by
  refine Transition.run_inv (P := fun s => Reached m l s.1 s.2) callOn (fun s op t hs ht => ?_)
    (Reached.mounted (m := m) (l := l)) h
  obtain ⟨⟨r, m', l'⟩, hrun, rfl⟩ := Transition.map_eq_ok ht
  exact hs.run (keepsSb_op op) hrun

/-- The bits of a volume, unless rounding up goes around. -/
theorem freemapBits_bounds (hlow : m.nblocks ≤ wordSize - sfsBitsperblock) :
    m.nblocks ≤ m.freemapBits ∧ sfsFreemapStart + m.freemapBlocks < 2 ^ 21 := by
  have hword : wordSize = 2 ^ 32 := rfl
  unfold freemapBlocks freemapBits
  rw [wadd_of_lt (by unfold sfsBitsperblock at *; omega)]
  unfold sfsBitsperblock sfsFreemapStart at *
  omega

/-- **The limits** of a block below `sb_nblocks`. -/
theorem blockLimits (h : l.Honest) (hlow : m.nblocks ≤ wordSize - sfsBitsperblock)
    (hb : b < m.nblocks) : BlockLimits m l b := by
  have hlt : b + 1 < wordSize := by
    unfold sfsBitsperblock at hlow
    have hword : wordSize = 2 ^ 32 := rfl
    omega
  refine ⟨Nat.lt_of_lt_of_le hb (freemapBits_bounds hlow).1, ?_, stops_readblock h hlt,
    fun _ => stops_writeblock h hlt, stops_balloc h hlt hb⟩
  rintro ⟨p, hp⟩
  unfold sfsBused at hp
  rw [runOn_get, if_neg (Nat.not_le.mpr hb)] at hp
  cases hp

/-- The loop of `sfs_freemapio` returns only if the device has the blocks that it reads. -/
theorem freemap_within (h : l.Honest) {left i : ℕ} (hlt : sfsFreemapStart + (i + left) < 2 ^ 21)
    (hrun : runOn lhdDevice (loop (fun j _ => do
      let data ← sfsReadblock (sfsFreemapStart + j)
      modifyFs fun m => { m with freemap := setFreemapData m.freemap j data }) left i ()) m l =
        .ok (.ok (), m₁, l₁)) :
    ∀ j, i ≤ j → j < i + left → sfsFreemapStart + j < l.nsect := by
  induction left generalizing i m l with
  | zero => exact fun j h₁ h₂ => by omega
  | succ left ih =>
    intro j hij hj
    obtain ⟨e, -, he⟩ | ⟨_, m', l', hbody, hrest⟩ := runOn_bind_cases hrun
    · cases he
    obtain ⟨e, -, he⟩ | ⟨data, m'', l'', hread, hmod⟩ := runOn_bind_cases hbody
    · cases he
    cases hmod
    have hsame := runOn_same hread
    have hthis : sfsFreemapStart + i < l.nsect := by
      by_contra hge
      have hword : wordSize = 2 ^ 32 := rfl
      obtain ⟨p, hp⟩ := (stops_readblock (m := m) h (by omega)).mpr (Nat.not_lt.mp hge)
      rw [hp] at hread
      cases hread
    by_cases hji : j = i
    · rw [hji]
      exact hthis
    · rw [← hsame.1]
      exact ih (fun n => by rw [hsame.2]; exact h n) (by omega) hrest j (by omega) (by omega)

/-- **A mount that succeeds** has read the freemap: the device has its blocks. -/
theorem domount_freemap (h : l.Honest)
    (hmount : runOn lhdDevice sfsDomount m l = .ok (.ok (), m₁, l₁))
    (hlow : m₁.nblocks ≤ wordSize - sfsBitsperblock) (hb : b < m₁.freemapBlocks) :
    sfsFreemapStart + b < l₁.nsect := by
  unfold sfsDomount at hmount
  rw [runOn_kmalloc] at hmount
  split_ifs at hmount
  · cases hmount
  rw [runOn_modify] at hmount
  rcases runOn_bind_cases hmount with ⟨e, -, he⟩ | ⟨sb, m', l', hread, hrest⟩
  · cases he
  have hsame := runOn_same hread
  rw [runOn_modify] at hrest
  split_ifs at hrest
  · cases hrest
  rw [runOn_modify, runOn_kmalloc] at hrest
  split_ifs at hrest
  · cases hrest
  rw [runOn_modify] at hrest
  -- the freemap that was read is the one of the superblock in memory
  have hsb := (keepsSb_freemapio .read).sb hrest
  have hlast := (runOn_same hrest).1
  have hblocks : ∀ w : SfsFs, m₁.sb = w.sb → w.freemapBlocks = m₁.freemapBlocks := fun w hw => by
    unfold freemapBlocks freemapBits nblocks
    rw [hw]
  unfold sfsFreemapio at hrest
  rw [runOn_get, hblocks _ hsb] at hrest
  have hwithin := freemap_within (fun n => by rw [hsame.2]; exact h n)
    (by rw [Nat.zero_add]; exact (freemapBits_bounds hlow).2) hrest b (Nat.zero_le b) (by omega)
  rw [hlast]
  exact hwithin

/-- **After a mount** the freemap is on the device, and as long as the file system runs, a transfer or
an allocation of a block below `sb_nblocks` panics if and only if the device does not have it. -/
theorem domount_limits (h : l.Honest)
    (hmount : runOn lhdDevice sfsDomount m l = .ok (.ok (), m₁, l₁))
    (hlow : m₁.nblocks ≤ wordSize - sfsBitsperblock) :
    (∀ j < m₁.freemapBlocks, sfsFreemapStart + j < l₁.nsect) ∧
      ∀ m₂ l₂, Reached m₁ l₁ m₂ l₂ → l₂.nsect = l₁.nsect ∧ ∀ b < m₁.nblocks, BlockLimits m₂ l₂ b := by
  refine ⟨fun j hj => domount_freemap h hmount hlow hj, fun m₂ l₂ hlater => ?_⟩
  obtain ⟨hsb, hn, ha⟩ := hlater.same
  have hhonest : l₂.Honest := fun n => by
    rw [ha, (runOn_same hmount).2]
    exact h n
  have hnblocks : m₂.nblocks = m₁.nblocks := congrArg sbNblocks hsb
  exact ⟨hn, fun b hb => blockLimits hhonest (by rw [hnblocks]; exact hlow) (by rw [hnblocks]; exact hb)⟩

/-- A volume of ten blocks on a device with `nsect` sectors. -/
def tenBlocks (nsect : ℕ) (nsect_lt : nsect < wordSize) : Lhd where
  nsect := nsect
  nsect_lt := nsect_lt
  disk := fun _ => setWord (setWord (fun _ => 0) 0 sfsMagic) 1 10
  buf := fun _ => 0
  answer := fun _ => (.ok, fun _ => 0)
  log := []
  calls := 0

/-- The memory before a mount. -/
def noVolume : SfsFs where
  sb := fun _ => 0
  superdirty := false
  vnodes := []
  sv := fun _ => ⟨fun _ => 0, false, 0⟩
  freemap := fun _ => false
  freemapdirty := false
  iobuf := fun _ => 0
  idbuf := fun _ => 0
  truncbuf := fun _ => 0
  metaiobuf := fun _ => 0
  memory := fun _ => true

/-- The result of a mount, the number of blocks, and the size of the device. -/
def mountView (r : Except FsErr Unit × SfsFs × Lhd) : Option FsErr × ℕ × ℕ :=
  (code r.1, r.2.1.nblocks, r.2.2.nsect)

/-- A run with this view. -/
theorem exists_mounted {r : Except FsPanic (Except FsErr Unit × SfsFs × Lhd)} {n k : ℕ}
    (h : r.toOption.map mountView = some (none, n, k)) :
    ∃ m₁ l₁, r = .ok (.ok (), m₁, l₁) ∧ m₁.nblocks = n ∧ l₁.nsect = k := by
  rcases r with p | ⟨e | _, m₁, l₁⟩
  · cases h
  · cases h
  · cases h
    exact ⟨m₁, l₁, rfl, rfl, rfl⟩

/-- Ten blocks on ten sectors: every block can be transferred. -/
theorem domount_limits_ten : ∃ m₁ l₁,
    runOn lhdDevice sfsDomount noVolume (tenBlocks 10 (by decide)) = .ok (.ok (), m₁, l₁) ∧
      ∀ m₂ l₂, Reached m₁ l₁ m₂ l₂ → ∀ b < 10, ¬ Stops (sfsReadblock b) m₂ l₂ := by
  obtain ⟨m₁, l₁, hrun, hn, hk⟩ := exists_mounted
    (show (runOn lhdDevice sfsDomount noVolume (tenBlocks 10 (by decide))).toOption.map mountView =
      some (none, 10, 10) by decide +kernel)
  refine ⟨m₁, l₁, hrun, fun m₂ l₂ hlater b hb hstop => ?_⟩
  obtain ⟨hsize, hlimits⟩ :=
    (domount_limits (fun _ h => by cases h) hrun (by rw [hn]; decide)).2 m₂ l₂ hlater
  have hbeyond := (hlimits b (by omega)).readblock.mp hstop
  omega

/-- Ten blocks on three sectors: the mount succeeds, and a read of block 5 panics. -/
theorem not_domount_limits :
    ¬ ∀ (m m₁ : SfsFs) (l l₁ : Lhd), l.Honest →
      runOn lhdDevice sfsDomount m l = .ok (.ok (), m₁, l₁) → ∀ b < m₁.nblocks,
        (b < m₁.freemapBits ∧ b < l₁.nsect) ∧ ∀ m₂ l₂, Reached m₁ l₁ m₂ l₂ →
          ¬ Stops (sfsBused b) m₂ l₂ ∧ ¬ Stops (sfsReadblock b) m₂ l₂ ∧
            (∀ data, ¬ Stops (sfsWriteblock b data) m₂ l₂) ∧
            (m₂.bitmapAlloc = some b → ¬ Stops sfsBalloc m₂ l₂) := by
  intro hall
  obtain ⟨m₁, l₁, hrun, hn, hk⟩ := exists_mounted
    (show (runOn lhdDevice sfsDomount noVolume (tenBlocks 3 (by decide))).toOption.map mountView =
      some (none, 10, 3) by decide +kernel)
  have hwithin := (hall _ _ _ _ (fun _ h => by cases h) hrun 5 (by omega)).1.2
  omega

end Mount

end SfsFs

end Os161
