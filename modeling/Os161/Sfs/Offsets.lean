import Os161.Sfs.Spec

set_option autoImplicit false

/-!
# The position of a block on the device

`sfs_readblock` and `sfs_writeblock` compute the position of a block with 64 bits (`SFSUIO`),
`sfs_blockio` with 32.

* `sent_blockio`, `sent_partialio`, `sent_readblock`, `sent_writeblock`: the positions that the
  device is sent.
* **`pathsAgree_iff`**: the two kinds of transfers agree on a block exactly if it is below 2^23.
-/

namespace Os161

open Buffer Transition

namespace SfsFs

variable {α β D : Type}

/-- A device. -/
abbrev Device (D : Type) : Type := D → SectorIo → Except FsPanic (SectorReply × D)

/-- The requests of a run of a program of SFS. -/
def requests (dev : Device D) (x : SfsM α) (m : SfsFs) (d : D) : List SectorIo :=
  Program.sent dev x.run m d

/-- The run of a program of SFS on any device. -/
def runOn (dev : Device D) (x : SfsM α) (m : SfsFs) (d : D) :
    Except FsPanic (Except FsErr α × SfsFs × D) := Program.run dev x.run m d

/-- The lookup of the block that a uio is at. -/
def lookup (ino : ℕ) (u : Uio) : SfsM ℕ :=
  sfsBmap ino (u.offset / sfsBlocksize % wordSize) (u.rw = .write)

/-- The requests after those of a lookup are for the position of block `b`, as computed without
wrap-around. -/
def At (b : ℕ) (before all : List SectorIo) : Prop :=
  ∃ after, all = before ++ after ∧ ∀ q ∈ after, q.uio.offset = b * sfsBlocksize

/-- **The transfers of block `b` agree**: `sfs_blockio` and `sfs_partialio`, once `sfs_bmap` has
returned the block, and `sfs_readblock` and `sfs_writeblock` send its position; and what was written
in one way is read in the other. -/
structure PathsAgree (b : ℕ) : Prop where
  blockio : ∀ {D : Type} (dev : Device D) (ino : ℕ) (u : Uio) (m m' : SfsFs) (d d' : D),
    sfsBlocksize ≤ u.resid → runOn dev (lookup ino u) m d = .ok (.ok b, m', d') →
    At b (requests dev (lookup ino u) m d) (requests dev (sfsBlockio ino u) m d)
  partialio : ∀ {D : Type} (dev : Device D) (ino : ℕ) (u : Uio) (skipstart len : ℕ)
    (m m' : SfsFs) (d d' : D), skipstart + len ≤ sfsBlocksize →
    runOn dev (lookup ino u) m d = .ok (.ok b, m', d') →
    At b (requests dev (lookup ino u) m d) (requests dev (sfsPartialio ino u skipstart len) m d)
  readblock : ∀ {D : Type} (dev : Device D) (m : SfsFs) (d : D),
    At b [] (requests dev (sfsReadblock b) m d)
  writeblock : ∀ {D : Type} (dev : Device D) (data : SfsFs → Buffer) (m : SfsFs) (d : D),
    At b [] (requests dev (sfsWriteblock b data) m d)
  blockio_readblock : ∀ (ino : ℕ) (u u' : Uio) (v v' w : Vol), u.rw = .write →
    exec (lookup ino u) v = .ok (.ok b, v') → exec (sfsBlockio ino u) v = .ok (.ok (none, u'), w) →
    ∀ m r w', exec (sfsReadblock b) ⟨m, w.disk⟩ = .ok (.ok r, w') →
    EqOn sfsBlocksize r fun o => u.area (u.pos + o)
  writeblock_blockio : ∀ (ino : ℕ) (u u' : Uio) (data : SfsFs → Buffer) (v w v' w' : Vol)
    (m : SfsFs), u.rw = .read → exec (sfsWriteblock b data) v = .ok (.ok (), w) →
    exec (lookup ino u) ⟨m, w.disk⟩ = .ok (.ok b, v') →
    exec (sfsBlockio ino u) ⟨m, w.disk⟩ = .ok (.ok (none, u'), w') →
    EqOn sfsBlocksize (fun o => u'.area (u.pos + o)) (data v.fs)

section Requests

variable {dev : Device D} {x : SfsM α} {f : α → SfsM β} {m m' : SfsFs} {d d' : D} {a : α}
  {ino b skipstart len : ℕ} {u : Uio}

theorem runOn_attempt : runOn dev (attempt x) m d = (runOn dev x m d).map fun r => (.ok r.1, r.2) := by
  unfold runOn
  change Program.run dev (x.run >>= fun r => pure (Except.ok r)) m d = _
  rw [Program.run_bind]
  cases Program.run dev x.run m d <;> rfl

theorem runOn_get {f : SfsFs → SfsM β} : runOn dev (getFs >>= f) m d = runOn dev (f m) m d := rfl

/-- A program whose first part returns a result. -/
theorem runOn_bind (h : runOn dev x m d = .ok (.ok a, m', d')) :
    runOn dev (x >>= f) m d = runOn dev (f a) m' d' := by
  unfold runOn at h ⊢
  change Program.run dev (x.run >>= ExceptT.bindCont f) m d = _
  rw [Program.run_bind, h]
  rfl

theorem requests_bind (h : runOn dev x m d = .ok (.ok a, m', d')) :
    requests dev (x >>= f) m d = requests dev x m d ++ requests dev (f a) m' d' := by
  unfold requests
  change Program.sent dev (x.run >>= ExceptT.bindCont f) m d = _
  rw [Program.sent_bind h]
  rfl

theorem requests_attempt {r : Except FsErr α} (h : runOn dev x m d = .ok (r, m', d')) :
    requests dev (attempt x) m d = requests dev x m d := by
  unfold requests
  change Program.sent dev (x.run >>= fun r => pure (Except.ok r)) m d = _
  rw [Program.sent_bind h]
  exact List.append_nil _

theorem requests_rwblock {q : SfsFs → SectorIo} {f : SectorReply → SfsM β}
    (hf : ∀ r d', requests dev (f r) m d' = []) : requests dev (sfsRwblock q >>= f) m d = [q m] := by
  have hreq : (sfsRwblock q >>= f).run m = .request m q fun r m => (f r).run m := rfl
  rw [requests, Program.sent, hreq, Prog.sent]
  cases dev d (q m) with
  | error p => rfl
  | ok r => exact congrArg (q m :: ·) (hf r.1 r.2)

/-- **The request of `sfs_blockio`.** -/
theorem sent_blockio (hb : b ≠ 0) (hres : sfsBlocksize ≤ u.resid)
    (h : runOn dev (lookup ino u) m d = .ok (.ok b, m', d')) :
    requests dev (sfsBlockio ino u) m d =
      requests dev (lookup ino u) m d ++ [⟨u.forDevice b, rfl⟩] := by
  have hat : runOn dev (attempt (lookup ino u)) m d = .ok (.ok (.ok b), m', d') := by
    rw [runOn_attempt, h]
    rfl
  unfold sfsBlockio
  rw [show sfsBmap ino (u.offset / sfsBlocksize % wordSize) (u.rw = .write) = lookup ino u from rfl,
    requests_bind hat, requests_attempt h]
  congr 1
  simp only [blockTransfer, if_neg hb, kassert, if_pos hres, pure_bind]
  exact requests_rwblock fun _ _ => rfl

theorem sent_readblock : requests dev (sfsReadblock b) m d = [⟨sfsuio (fun _ => 0) b .read, rfl⟩] :=
  requests_rwblock fun r d' => by
    obtain ⟨e, u⟩ := r
    cases e <;> rfl

theorem sent_writeblock (data : SfsFs → Buffer) :
    requests dev (sfsWriteblock b data) m d = [⟨sfsuio (data m) b .write, rfl⟩] :=
  requests_rwblock fun r d' => by
    obtain ⟨e, u⟩ := r
    cases e <;> rfl

theorem requests_get {f : SfsFs → SfsM β} : requests dev (getFs >>= f) m d = requests dev (f m) m d :=
  rfl

theorem mem_requests_bind {q : SectorIo} (h : q ∈ requests dev (x >>= f) m d) :
    q ∈ requests dev x m d ∨ ∃ a m' d', q ∈ requests dev (f a) m' d' := by
  rcases Program.mem_sent_bind (x := x.run) (f := ExceptT.bindCont f) h with h | ⟨r, m', d', h⟩
  · exact .inl h
  · cases r with
    | ok a => exact .inr ⟨a, m', d', h⟩
    | error e => cases h

theorem mem_requests_attempt {q : SectorIo} (h : q ∈ requests dev (attempt x) m d) :
    q ∈ requests dev x m d := by
  rcases Program.mem_sent_bind (x := x.run) (f := fun r => pure (Except.ok r)) h with
    h | ⟨r, m', d', h⟩
  · exact h
  · cases h

theorem mem_requests_status {q : SectorIo} (h : q ∈ requests dev (status x) m d) :
    q ∈ requests dev x m d := by
  rcases mem_requests_bind h with h | ⟨r, m', d', h⟩
  · exact mem_requests_attempt h
  · cases r <;> cases h

/-- The requests of `sfs_partialio` after the lookup. -/
theorem mem_requests_partial {q : SectorIo} (hb : b ≠ 0)
    (h : q ∈ requests dev (status (loadBlock u.rw b) >>= fun e =>
      if e.isSome then return (e, u) else movePartial u b skipstart len) m d) :
    q.uio.offset = b * sfsBlocksize := by
  have hread : ∀ {m d}, q ∈ requests dev (sfsReadblock b) m d →
      q.uio.offset = b * sfsBlocksize := fun h => by
    rw [sent_readblock] at h
    rw [List.mem_singleton.mp h]
    rfl
  rcases mem_requests_bind h with h | ⟨e, m₁, d₁, h⟩
  · unfold loadBlock at h
    rw [if_neg hb] at h
    rcases mem_requests_bind (mem_requests_status h) with h | ⟨_, _, _, h⟩
    · exact hread h
    · cases h
  split_ifs at h
  · cases h
  unfold movePartial at h
  rcases mem_requests_bind h with h | ⟨m₂, _, d₂, h⟩
  · cases h
  rcases mem_requests_bind h with h | ⟨r, _, _, h⟩
  · revert h
    cases uiomove m₂.iobuf skipstart len u <;> intro h <;> cases h
  obtain ⟨e', u', buf⟩ := r
  rcases mem_requests_bind h with h | ⟨_, _, _, h⟩
  · cases h
  split_ifs at h
  · cases h
  · rcases mem_requests_bind h with h | ⟨_, _, _, h⟩
    · have := mem_requests_status h
      rw [sent_writeblock] at this
      rw [List.mem_singleton.mp this]
      rfl
    · cases h
  · cases h

/-- **The requests of `sfs_partialio`.** -/
theorem sent_partialio (hb : b ≠ 0) (hlen : skipstart + len ≤ sfsBlocksize)
    (h : runOn dev (lookup ino u) m d = .ok (.ok b, m', d')) :
    At b (requests dev (lookup ino u) m d) (requests dev (sfsPartialio ino u skipstart len) m d) := by
  have hat : runOn dev (attempt (lookup ino u)) m d = .ok (.ok (.ok b), m', d') := by
    rw [runOn_attempt, h]
    rfl
  refine ⟨requests dev (status (loadBlock u.rw b) >>= fun e =>
    if e.isSome then return (e, u) else movePartial u b skipstart len) m' d', ?_,
    fun q hq => mem_requests_partial hb hq⟩
  unfold sfsPartialio
  simp only [kassert, if_pos hlen, pure_bind]
  rw [show sfsBmap ino (u.offset / sfsBlocksize % wordSize) (u.rw = .write) = lookup ino u from rfl,
    requests_bind hat, requests_attempt h]

end Requests

section Disk

variable {b ino fb : ℕ} {v w : Vol}

/-- The position that `sfs_blockio` computes. -/
theorem offset_eq_iff : b * sfsBlocksize % wordSize = b * sfsBlocksize ↔ b < 2 ^ 23 := by
  unfold sfsBlocksize wordSize
  omega

/-- The end of a lookup sends nothing. -/
theorem requests_handBack {D : Type} {dev : Device D} {m : SfsFs} {d : D} :
    requests dev (handBack b) m d = [] := by
  unfold handBack
  split_ifs
  · rfl
  · refine List.eq_nil_iff_forall_not_mem.mpr fun q h => ?_
    rcases mem_requests_bind h with h | ⟨used, _, _, h⟩
    · unfold sfsBused at h
      rw [requests_get] at h
      split_ifs at h <;> cases h
    · split_ifs at h <;> cases h

/-- Without allocation a lookup only reads. -/
theorem requests_bmap_read {D : Type} {dev : Device D} {m : SfsFs} {d : D} {q : SectorIo}
    (h : q ∈ requests dev (sfsBmap ino fb false) m d) : q.uio.rw = .read := by
  unfold sfsBmap at h
  simp only at h
  split_ifs at h
  · unfold bmapDirect at h
    rw [requests_get] at h
    simp only [Bool.false_eq_true, and_false, if_false, requests_handBack] at h
    cases h
  · cases h
  · rw [requests_get] at h
    split_ifs at h with hz
    · cases h
    have hind : sfiIndirect (m.inode ino) ≠ 0 := fun h0 => hz ⟨h0, trivial⟩
    rcases mem_requests_bind h with h | ⟨idblock, _, _, h⟩
    · unfold bmapIndirect at h
      rw [requests_get] at h
      simp only [if_neg hind] at h
      rcases mem_requests_bind h with h | ⟨data, _, _, h⟩
      · rw [sent_readblock] at h
        rw [List.mem_singleton.mp h]
        rfl
      · cases h
    · unfold bmapEntry at h
      rw [requests_get] at h
      simp only [Bool.false_eq_true, and_false, if_false, requests_handBack] at h
      cases h

/-- A read leaves the disk as it is. -/
theorem diskDevice_read {d d' : Disk} {q : SectorIo} {r : SectorReply} (hrw : q.uio.rw = .read)
    (h : diskDevice d q = .ok (r, d')) : d' = d := by
  unfold diskDevice diskSector at h
  rw [hrw] at h
  split_ifs at h
  obtain ⟨⟨e, u, buf⟩, -, h⟩ := bind_eq_ok.mp h
  cases h
  rfl

/-- A run on the disk. -/
theorem exec_eq_ok {x : SfsM α} {r : Except FsErr α} :
    exec x v = .ok (r, w) ↔ runOn diskDevice x v.fs v.disk = .ok (r, w.fs, w.disk) := by
  unfold exec runOn
  cases Program.run diskDevice x.run v.fs v.disk with
  | error p => exact ⟨fun h => (by cases h), fun h => (by cases h)⟩
  | ok t =>
    obtain ⟨r', m, d⟩ := t
    constructor
    · intro h
      cases h
      rfl
    · intro h
      cases h
      rfl

/-- A lookup for a read leaves the disk as it is. -/
theorem lookup_read_disk {u : Uio} {r : Except FsErr ℕ} (hrw : u.rw = .read)
    (h : exec (lookup ino u) v = .ok (r, w)) : w.disk = v.disk := by
  have hread : lookup ino u = sfsBmap ino (u.offset / sfsBlocksize % wordSize) false := by
    rw [lookup, hrw]
    rfl
  rw [hread] at h
  exact Program.run_of_sent (P := fun q => q.uio.rw = .read) (S := fun d d' => d' = d)
    (fun _ => rfl) (fun _ _ _ h₁ h₂ => h₂.trans h₁) (fun _ _ _ _ => diskDevice_read) _ _ _ _ _
    (fun _ hq => requests_bmap_read hq) (exec_eq_ok.mp h)

section Bytes

variable {d d' : Disk} {q : SectorIo} {u u' : Uio} {ptr ptr' : Buffer} {n : ℕ}

/-- A transfer that succeeds has moved its bytes. -/
theorem uiomove_none (h : uiomove ptr 0 n u = .ok (none, u', ptr')) (hr : n ≤ u.resid)
    (hlt : u.resid < wordSize) : u.Copied u' ptr ptr' 0 n := by
  by_cases hi : n ≤ u.iov.sum
  · by_cases ha : u.Accessible n
    · obtain ⟨v, c, he, -, hc⟩ := uiomove_ok ⟨hr, hi, hlt, ha⟩ ptr 0
      cases he.symm.trans h
      exact hc
    · obtain ⟨v, c, he⟩ := uiomove_fault hr hi hlt ha ptr 0
      cases he.symm.trans h
  · exact absurd h (uiomoveLoop_short u.iov (by omega) hr hlt)

/-- The sector of a position. -/
theorem sector_of_offset (hoff : q.uio.offset = b * sfsBlocksize) (hb : b < wordSize) :
    q.sector = b := by
  have hsize : sfsBlocksize = lhdSectsize := rfl
  rw [SectorIo.sector, hoff, hsize, Nat.mul_div_cancel _ (by decide), Nat.mod_eq_of_lt hb]

theorem diskDevice_served {r : SectorReply} (hoff : q.uio.offset = b * sfsBlocksize)
    (hb : b < wordSize) (h : diskDevice d q = .ok (r, d')) : diskSector d q.uio b = .ok (r, d') := by
  unfold diskDevice at h
  split_ifs at h
  rwa [sector_of_offset hoff hb] at h

/-- A sector that was written. -/
theorem sector_written (hoff : q.uio.offset = b * sfsBlocksize) (hb : b < wordSize)
    (hrw : q.uio.rw = .write) (h : diskDevice d q = .ok ((none, u'), d')) :
    EqOn sfsBlocksize (d'.sector b) fun o => q.uio.area (q.uio.pos + o) := by
  have hs := diskDevice_served hoff hb h
  unfold diskSector at hs
  rw [hrw] at hs
  obtain ⟨⟨e, u₁, data⟩, hm, hs⟩ := bind_eq_ok.mp hs
  cases hs
  have hc := uiomove_none hm (by rw [q.resid]) (by rw [q.resid]; decide)
  have hsize : sfsBlocksize = lhdSectsize := rfl
  intro o ho
  have hset : (d.write b data).sector b = data := Function.update_self _ _ _
  change (d.write b data).sector b o = _
  rw [hset, (hc.write hrw).2, blit_of_mem (Nat.zero_le o) (by omega), Nat.sub_zero]

/-- A sector that was read. -/
theorem sector_read (hoff : q.uio.offset = b * sfsBlocksize) (hb : b < wordSize)
    (hrw : q.uio.rw = .read) (h : diskDevice d q = .ok ((none, u'), d')) :
    EqOn sfsBlocksize (fun o => u'.area (q.uio.pos + o)) (d.sector b) := by
  have hs := diskDevice_served hoff hb h
  unfold diskSector at hs
  rw [hrw] at hs
  obtain ⟨⟨e, u₁, buf⟩, hm, hs⟩ := bind_eq_ok.mp hs
  cases hs
  have hc := uiomove_none hm (by rw [q.resid]) (by rw [q.resid]; decide)
  have hsize : sfsBlocksize = lhdSectsize := rfl
  intro o ho
  change u'.area (q.uio.pos + o) = _
  rw [(hc.read hrw).1, blit_of_mem (by omega) (by omega), Nat.zero_add, Nat.add_sub_cancel_left]

end Bytes

section Runs

variable {v' w' : Vol} {u u' : Uio}

/-- A transfer of a whole block that succeeds is a request that succeeds. -/
theorem blockio_request (hb : b ≠ 0) (hl : exec (lookup ino u) v = .ok (.ok b, v'))
    (h : exec (sfsBlockio ino u) v = .ok (.ok (none, u'), w)) : ∃ u₁,
      diskDevice v'.disk ⟨u.forDevice b, rfl⟩ = .ok ((none, u₁), w.disk) ∧ u' = u₁.restore u b := by
  unfold sfsBlockio at h
  rw [exec_bind, exec_attempt] at h
  change (Except.map _ (exec (lookup ino u) v) >>= _) = _ at h
  rw [hl] at h
  change exec (blockTransfer u b) v' = _ at h
  simp only [blockTransfer, if_neg hb, kassert] at h
  split_ifs at h with hres
  · simp only [pure_bind] at h
    have hrun := exec_eq_ok.mp h
    change (diskDevice v'.disk ⟨u.forDevice b, rfl⟩ >>= fun r => _) = _ at hrun
    obtain ⟨⟨⟨e, u₁⟩, d⟩, hd, hrest⟩ := bind_eq_ok.mp hrun
    have hrest' : (Except.ok (Except.ok (e, u₁.restore u b), v'.fs, d) :
        Except FsPanic (Except FsErr (Option FsErr × Uio) × SfsFs × Disk)) =
          .ok (.ok (none, u'), w.fs, w.disk) := hrest
    simp only [Except.ok.injEq, Prod.mk.injEq] at hrest'
    obtain ⟨⟨rfl, rfl⟩, -, rfl⟩ := hrest'
    exact ⟨u₁, hd, rfl⟩
  · cases exec_eq_ok.mp h

/-- `sfs_readblock` that succeeds. -/
theorem readblock_request {r : Buffer} (h : exec (sfsReadblock b) v = .ok (.ok r, w)) :
    ∃ u₁, diskDevice v.disk ⟨sfsuio (fun _ => 0) b .read, rfl⟩ = .ok ((none, u₁), w.disk) ∧
      r = u₁.area := by
  have hrun := exec_eq_ok.mp h
  change (diskDevice v.disk ⟨sfsuio (fun _ => 0) b .read, rfl⟩ >>= fun r => _) = _ at hrun
  obtain ⟨⟨⟨e, u₁⟩, d⟩, hd, hrest⟩ := bind_eq_ok.mp hrun
  cases e with
  | some e =>
    change (Except.ok (Except.error e, v.fs, d) :
      Except FsPanic (Except FsErr Buffer × SfsFs × Disk)) = _ at hrest
    cases hrest
  | none =>
    change (Except.ok (Except.ok u₁.area, v.fs, d) :
      Except FsPanic (Except FsErr Buffer × SfsFs × Disk)) = _ at hrest
    simp only [Except.ok.injEq, Prod.mk.injEq] at hrest
    obtain ⟨rfl, -, rfl⟩ := hrest
    exact ⟨u₁, hd, rfl⟩

/-- `sfs_writeblock` that succeeds. -/
theorem writeblock_request {data : SfsFs → Buffer}
    (h : exec (sfsWriteblock b data) v = .ok (.ok (), w)) :
    ∃ u₁, diskDevice v.disk ⟨sfsuio (data v.fs) b .write, rfl⟩ = .ok ((none, u₁), w.disk) := by
  have hrun := exec_eq_ok.mp h
  change (diskDevice v.disk ⟨sfsuio (data v.fs) b .write, rfl⟩ >>= fun r => _) = _ at hrun
  obtain ⟨⟨⟨e, u₁⟩, d⟩, hd, hrest⟩ := bind_eq_ok.mp hrun
  cases e with
  | some e =>
    change (Except.ok (Except.error e, v.fs, d) :
      Except FsPanic (Except FsErr Unit × SfsFs × Disk)) = _ at hrest
    cases hrest
  | none =>
    change (Except.ok (Except.ok (), v.fs, d) :
      Except FsPanic (Except FsErr Unit × SfsFs × Disk)) = _ at hrest
    simp only [Except.ok.injEq, Prod.mk.injEq] at hrest
    obtain ⟨-, -, rfl⟩ := hrest
    exact ⟨u₁, hd⟩

end Runs

/-- **A block whose position 32 bits can hold**: the transfers agree. -/
theorem pathsAgree_of_lt (hb : b ≠ 0) (hlow : b < 2 ^ 23) : PathsAgree b where
  blockio dev ino u m m' d d' hres h := by
    refine ⟨_, sent_blockio hb hres h, fun q hq => ?_⟩
    rw [List.mem_singleton.mp hq]
    exact offset_eq_iff.mpr hlow
  partialio dev ino u skipstart len m m' d d' hlen h := sent_partialio hb hlen h
  readblock dev m d := ⟨_, sent_readblock, fun q hq => by rw [List.mem_singleton.mp hq]; rfl⟩
  writeblock dev data m d :=
    ⟨_, sent_writeblock data, fun q hq => by rw [List.mem_singleton.mp hq]; rfl⟩
  blockio_readblock ino u u' v v' w hrw hl h m r w' hr := by
    have hlt : b < wordSize := by unfold wordSize; omega
    obtain ⟨u₁, hd, -⟩ := blockio_request hb hl h
    obtain ⟨u₂, hd', rfl⟩ := readblock_request hr
    have hw := sector_written (q := ⟨u.forDevice b, rfl⟩) (offset_eq_iff.mpr hlow) hlt hrw hd
    have hread := sector_read (q := ⟨sfsuio (fun _ => 0) b .read, rfl⟩) rfl hlt rfl hd'
    intro o ho
    have h₁ := hread o ho
    simp only [sfsuio, Nat.zero_add] at h₁
    exact h₁.trans (hw o ho)
  writeblock_blockio ino u u' data v w v' w' m hrw hwr hl h := by
    have hlt : b < wordSize := by unfold wordSize; omega
    obtain ⟨u₁, hd⟩ := writeblock_request hwr
    obtain ⟨u₂, hd', rfl⟩ := blockio_request hb hl h
    rw [lookup_read_disk hrw hl] at hd'
    have hw := sector_written (q := ⟨sfsuio (data v.fs) b .write, rfl⟩) rfl hlt rfl hd
    have hread := sector_read (q := ⟨u.forDevice b, rfl⟩) (offset_eq_iff.mpr hlow) hlt hrw hd'
    intro o ho
    have h₁ := hw o ho
    simp only [sfsuio, Nat.zero_add] at h₁
    exact (hread o ho).trans h₁

/-! ## Blocks from 2^23 on -/

/-- A volume of 2^32 - 1 blocks with a file whose first block is `b`. -/
def bigVolume (b : ℕ) : SfsFs where
  sb := setWord (fun _ => 0) 1 (2 ^ 32 - 1)
  superdirty := false
  vnodes := [1]
  sv := fun _ => ⟨setWord (fun _ => 0) 2 b, false, 1⟩
  freemap := fun _ => true
  freemapdirty := false
  iobuf := fun _ => 0
  idbuf := fun _ => 0
  truncbuf := fun _ => 0
  metaiobuf := fun _ => 0
  memory := fun _ => true

/-- A read of the first block of a file. -/
def firstBlock : Uio := ⟨[512], fun _ => 0, 0, false, 0, 0, 512, .read⟩

theorem lookup_firstBlock {D : Type} (dev : Device D) (d : D) (hb : b ≠ 0) (hlt : b < 2 ^ 32 - 1) :
    runOn dev (lookup 1 firstBlock) (bigVolume b) d = .ok (.ok b, bigVolume b, d) := by
  have hdirect : sfiDirect ((bigVolume b).inode 1) 0 = b :=
    (word_setWord (by omega)).trans (if_pos rfl)
  have hnblocks : (bigVolume b).nblocks = 2 ^ 32 - 1 :=
    (word_setWord (by decide)).trans (if_pos rfl)
  have hused : runOn dev (sfsBused b) (bigVolume b) d = .ok (.ok true, bigVolume b, d) := by
    rw [sfsBused, runOn_get, if_neg (by rw [hnblocks]; omega)]
    rfl
  have hlook : lookup 1 firstBlock = bmapDirect 1 0 false := rfl
  rw [hlook, bmapDirect, runOn_get]
  simp only [hdirect, Bool.false_eq_true, and_false, if_false]
  rw [handBack, if_neg hb, runOn_bind hused]
  rfl

/-- **A block whose position 32 bits cannot hold**: `sfs_blockio` sends another one. -/
theorem not_pathsAgree (hlow : 2 ^ 23 ≤ b) (hlt : b < 2 ^ 32 - 1) : ¬ PathsAgree b := by
  intro h
  have hb : b ≠ 0 := by omega
  have hl := lookup_firstBlock (fun _ _ => .error .devopEinval) () hb hlt
  obtain ⟨after, hall, hat⟩ := h.blockio _ 1 firstBlock _ _ () () (le_refl _) hl
  rw [sent_blockio hb (le_refl _) hl, List.append_cancel_left_eq] at hall
  have := hat _ (hall ▸ List.mem_singleton_self _)
  exact absurd (offset_eq_iff.mp this) (by omega)

/-- **The transfers of a block agree exactly if its position fits in 32 bits.** -/
theorem pathsAgree_iff (hb : b ≠ 0) (hlt : b < 2 ^ 32 - 1) : PathsAgree b ↔ b < 2 ^ 23 := by
  constructor
  · intro h
    by_contra hc
    exact not_pathsAgree (by omega) hlt h
  · exact pathsAgree_of_lt hb

theorem pathsAgree_iff_five : PathsAgree 5 ↔ 5 < 2 ^ 23 := pathsAgree_iff (by decide) (by decide)

/-- The first block of the second 4 GB. -/
theorem not_pathsAgree_first : ¬ ∀ b, b ≠ 0 → b < 2 ^ 32 - 1 → PathsAgree b :=
  fun h => not_pathsAgree (by decide) (by decide) (h (2 ^ 23) (by decide) (by decide))

end Disk

end SfsFs

end Os161
