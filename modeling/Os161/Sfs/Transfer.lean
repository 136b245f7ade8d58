import Os161.Sfs.Io

set_option autoImplicit false

/-!
# Transfers of blocks

What a transfer of one block promises: if it succeeds, the sector and the caller's memory agree, and
every call of the driver after the first repeats the command.

* **`kept_iff`**: a read keeps the promise, but for a whole block from 2^23 on, whose position is
  computed with 32 bits. A write keeps it when the device does not report a media error.
-/

namespace Os161

open Buffer Transition

/-- Every command on the way from `d` to `d'` is for sector `b`, a write carries `data`, and if the
driver was called more than once, each call was a command. -/
def Lhd.Repeats (d d' : Lhd) (b : ℕ) (data : Option Buffer) : Prop :=
  ∃ cmds, d'.log = d.log ++ cmds ∧
    (d'.calls ≤ d.calls + 1 ∨ d'.calls = d.calls + cmds.length) ∧
    ∀ c ∈ cmds, c.sector = b ∧ (c.write = true → ∃ w, data = some w ∧ EqOn lhdSectsize c.data w)

/-- The bytes that are next to be moved. -/
def Uio.data (u : Uio) : Buffer := fun o => u.area (u.pos + o)

/-- **The promise of a transfer** of sector `b`: `Repeats`, and on success the sector holds `data` if
this is a write, and `n` bytes of the sector from `skip` on are in the memory if this is a read. -/
structure Transferred (d d' : Lhd) (u u' : Uio) (b skip n : ℕ) (e : Option FsErr) (data : Buffer) :
    Prop where
  repeats : d.Repeats d' b (if u.rw = .write then some data else none)
  write : e = none → u.rw = .write → EqOn lhdSectsize (d'.disk b) data
  read : e = none → u.rw = .read → u'.area = blit u.area u.pos n (d.disk b) skip

/-- The functions that transfer a block, with their arguments. -/
inductive Transfer
  | readblock (block : ℕ) (data : Buffer)
  | writeblock (block : ℕ) (data : Buffer)
  | blockio (u : Uio)
  | partialio (u : Uio) (skipstart len : ℕ)

/-- The block of the file that a uio is at is block `b` of the volume, and `s'` is the state after
`sfs_bmap` has returned it. -/
def Sfs.Maps (s : Sfs) (u : Uio) (s' : Sfs) (b : ℕ) : Prop :=
  sfsBmap s (u.offset / sfsBlocksize % wordSize) (u.rw = .write) = .ok (.ok b, s') ∧ b ≠ 0

/-- The caller passes a sector of the device, or a uio with memory for the request. -/
def Transfer.Valid (s : Sfs) : Transfer → Prop
  | .readblock block _ => block < s.dev.nsect
  | .writeblock block _ => block < s.dev.nsect
  | .blockio u => sfsBlocksize ≤ u.resid ∧ u.resid ≤ u.iov.sum ∧ u.resid < wordSize ∧
      ∀ s' b, s.Maps u s' b → b < s'.dev.nsect
  | .partialio u skipstart len => skipstart + len ≤ sfsBlocksize ∧ len ≤ u.resid ∧
      u.resid ≤ u.iov.sum ∧ u.resid < wordSize ∧ ∀ s' b, s.Maps u s' b → b < s'.dev.nsect

/-- **The transfer keeps its promise** whenever it returns. -/
def Sfs.Kept (s : Sfs) : Transfer → Prop
  | .readblock block data => ∀ e d' data', sfsReadblock s.dev block data = .ok (e, d', data') →
      s.dev.Repeats d' block none ∧ (e = none → EqOn sfsBlocksize data' (s.dev.disk block))
  | .writeblock block data => ∀ e d', sfsWriteblock s.dev block data = .ok (e, d') →
      s.dev.Repeats d' block (some data) ∧ (e = none → EqOn sfsBlocksize (d'.disk block) data)
  | .blockio u => ∀ s₁ b, s.Maps u s₁ b → ∀ e s' u', sfsBlockio s u = .ok (e, s', u') →
      Transferred s₁.dev s'.dev u u' b 0 sfsBlocksize e u.data
  | .partialio u skipstart len => ∀ s₁ b, s.Maps u s₁ b → ∀ e s' u',
      sfsPartialio s u skipstart len = .ok (e, s', u') →
      Transferred s₁.dev s'.dev u u' b skipstart len e
        (blit (s₁.dev.disk b) skipstart len u.area u.pos)

/-- No write meets a media error, and no whole block is beyond the positions that 32 bits can hold.
(A transfer that faults before its command, and one that ends in a panic, are safe.) -/
def Sfs.Safe (s : Sfs) : Transfer → Prop
  | .readblock _ _ => True
  | .writeblock _ _ => s.dev.next ≠ .media
  | .blockio u => ∀ s₁ b, s.Maps u s₁ b →
      match u.rw with
      | .write => u.Accessible sfsBlocksize → s₁.dev.next ≠ .media ∧ (s₁.dev.next = .ok → b < 2 ^ 23)
      | .read => b < 2 ^ 23 ∨ ∃ j ≤ 10, s₁.dev.Ends j .invsect
  | .partialio u _ len => ∀ s₁ b, s.Maps u s₁ b → u.rw = .write → u.Accessible len →
      ∀ j ≤ 10, s₁.dev.Ends j .ok → s₁.dev.status (j + 1) ≠ .media

section Lemmas

variable {d d' : Lhd} {s s₁ : Sfs} {u : Uio} {b m skipstart len : ℕ}

theorem Lhd.Reads.repeats (h : d.Reads d' b m) (data : Option Buffer) : d.Repeats d' b data := by
  obtain ⟨cmds, hlog, hlen, hall⟩ := h.log
  refine ⟨cmds, hlog, .inr (by rw [h.calls, hlen]), fun c hc => ⟨(hall c hc).1, fun hw => ?_⟩⟩
  rw [(hall c hc).2] at hw
  exact absurd hw (by decide)

/-- Commands for another sector are not the transfer. -/
theorem Lhd.Reads.not_repeats {b' : ℕ} (h : d.Reads d' b m) (hm : 0 < m) (hb : b ≠ b')
    (data : Option Buffer) : ¬ d.Repeats d' b' data := by
  rintro ⟨cmds, hlog, -, hall⟩
  obtain ⟨cmds', hlog', hlen, hall'⟩ := h.log
  obtain rfl := List.append_cancel_left (hlog.symm.trans hlog')
  obtain ⟨c, hc⟩ := List.exists_mem_of_length_pos (hlen.symm ▸ hm)
  exact hb ((hall' c hc).1.symm.trans (hall c hc).1)

theorem Lhd.sent_repeats (data : Buffer) (pos : ℕ) (w : Buffer)
    (hw : w = fun o => data (pos + o)) : d.Repeats (d.sent b data pos) b (some w) := by
  refine ⟨_, d.sent_log data pos, .inl (by simp), fun c hc => ?_⟩
  rw [List.mem_singleton.mp hc]
  refine ⟨rfl, fun _ => ⟨w, rfl, fun o ho => ?_⟩⟩
  rw [hw]
  change blit d.buf 0 lhdSectsize data pos o = data (pos + o)
  rw [blit_of_mem (Nat.zero_le o) (by omega), Nat.sub_zero]

/-- **The defect of the retry**: the second call of the driver is no command. -/
theorem Lhd.sent_twice_not_repeats {b' : ℕ} (data : Buffer) (pos : ℕ) (w : Option Buffer) :
    ¬ d.Repeats { d.sent b data pos with calls := d.calls + 2 } b' w := by
  rintro ⟨cmds, hlog, hcalls, -⟩
  obtain rfl := List.append_cancel_left ((d.sent_log data pos).symm.trans hlog)
  simp at hcalls

theorem Lhd.sent_not_repeats {b' : ℕ} (hb : b ≠ b') (data : Buffer) (pos : ℕ) (w : Option Buffer) :
    ¬ d.Repeats (d.sent b data pos) b' w := by
  rintro ⟨cmds, hlog, -, hall⟩
  obtain rfl := List.append_cancel_left ((d.sent_log data pos).symm.trans hlog)
  exact hb (hall _ (List.mem_singleton_self _)).1

theorem kept_readblock (data : Buffer) (hb : b < s.dev.nsect) : s.Kept (.readblock b data) := by
  intro e d' data' he
  rcases sfsReadblock_cases hb data with ⟨-, d₁, hr, hd⟩ | ⟨j, -, -, hr⟩ | ⟨j, -, -, d₁, hd, hr⟩
  · obtain ⟨rfl, rfl, rfl⟩ : some FsErr.eio = e ∧ d₁ = d' ∧ data = data' := by
      simpa using hr.symm.trans he
    exact ⟨hd.repeats none, fun h => by cases h⟩
  · rw [hr] at he
    cases he
  · obtain ⟨rfl, rfl, rfl⟩ : none = e ∧ d₁ = d' ∧ blit data 0 lhdSectsize _ 0 = data' := by
      simpa using hr.symm.trans he
    exact ⟨hd.repeats none, fun _ => blit_eqOn⟩

theorem kept_writeblock_iff (data : Buffer) (hb : b < s.dev.nsect) :
    s.Kept (.writeblock b data) ↔ s.dev.next ≠ .media := by
  have hdata : data = fun o => data (0 + o) := by simp only [Nat.zero_add]
  constructor
  · intro h hs
    rcases sfsWriteblock_cases hb data with ⟨hs', -⟩ | ⟨hs', -⟩ | ⟨-, hr⟩
    · rw [hs] at hs'
      cases hs'
    · rw [hs] at hs'
      cases hs'
    · exact Lhd.sent_twice_not_repeats data 0 _ (h _ _ hr).1
  · intro hs e d' he
    rcases sfsWriteblock_cases hb data with ⟨-, hr⟩ | ⟨hok, hr⟩ | ⟨hs', -⟩
    · rw [hr] at he
      cases he
    · obtain ⟨rfl, rfl⟩ : none = e ∧ s.dev.sent b data 0 = d' := by simpa using hr.symm.trans he
      refine ⟨Lhd.sent_repeats data 0 data hdata, fun _ => ?_⟩
      rw [Lhd.sent_disk hok, Function.update_self]
      exact blit_eqOn
    · exact absurd hs' hs

/-- `sfs_blockio` on a block of the volume is one transfer of the device. -/
theorem sfsBlockio_eq (hm : s.Maps u s₁ b) (hres : sfsBlocksize ≤ u.resid) :
    sfsBlockio s u = sfsRwblock s₁.dev (u.forDevice b) >>= fun (e, d, v) =>
      .ok (e, { s₁ with dev := d }, v.restore u b) := by
  rw [sfsBlockio, hm.1]
  change blockTransfer s₁ u b = _
  rw [blockTransfer, if_neg hm.2, if_neg (by omega)]
  rfl

/-- What it keeps is what the transfer of the device keeps. -/
theorem kept_blockio_device (hm : s.Maps u s₁ b) (hres : sfsBlocksize ≤ u.resid) :
    (∀ e s' u', sfsBlockio s u = .ok (e, s', u') →
      Transferred s₁.dev s'.dev u u' b 0 sfsBlocksize e u.data) ↔
    ∀ e d' v, sfsRwblock s₁.dev (u.forDevice b) = .ok (e, d', v) →
      Transferred s₁.dev d' u v b 0 sfsBlocksize e u.data := by
  rw [sfsBlockio_eq hm hres]
  constructor
  · intro h e d' v hr
    have := h e { s₁ with dev := d' } (v.restore u b) (by rw [hr]; rfl)
    exact ⟨this.repeats, this.write, this.read⟩
  · intro h e s' u' he
    obtain ⟨⟨e', d', v⟩, hr, he⟩ := bind_eq_ok.mp he
    obtain ⟨rfl, rfl, rfl⟩ : e' = e ∧ _ = s' ∧ _ = u' := by
      simpa only [Except.ok.injEq, Prod.mk.injEq] using he
    have := h _ d' v hr
    exact ⟨this.repeats, this.write, this.read⟩

theorem kept_blockio_write_iff (hiov : sfsBlocksize ≤ u.iov.sum) (hb : b < d.nsect)
    (hrw : u.rw = .write) :
    (∀ e d' v, sfsRwblock d (u.forDevice b) = .ok (e, d', v) →
      Transferred d d' u v b 0 sfsBlocksize e u.data) ↔
    (u.Accessible sfsBlocksize → d.next ≠ .media ∧ (d.next = .ok → b < 2 ^ 23)) := by
  have hsector := Uio.forDevice_forSector (b := b) hiov
  have hlt : b % 2 ^ 23 < d.nsect := lt_of_le_of_lt (Nat.mod_le _ _) hb
  by_cases ha : u.Accessible sfsBlocksize
  · rcases rwLoop_write hsector hlt hrw ha 10 (by decide) with
      ⟨hs, hr⟩ | ⟨u', -, -, ⟨hs, hr⟩ | ⟨hs, hr⟩⟩
    · rw [sfsRwblock, hr, hs]
      exact ⟨fun _ _ => ⟨by decide, fun h => by cases h⟩, fun _ e d' v he => by cases he⟩
    · rw [sfsRwblock, hr]
      refine ⟨fun h _ => ⟨by rw [hs]; decide, fun _ => ?_⟩, fun h e d' v he => ?_⟩
      · by_contra hlow
        exact Lhd.sent_not_repeats (by omega) _ _ _ (h _ _ _ rfl).repeats
      · have hb' : b % 2 ^ 23 = b := Nat.mod_eq_of_lt ((h ha).2 hs)
        rw [hb'] at he
        obtain ⟨rfl, rfl, -⟩ : none = e ∧ d.sent b (u.forDevice b).area (u.forDevice b).pos = d' ∧ u' = v := by
          simpa using he
        refine ⟨?_, fun _ _ => ?_, fun _ h => ?_⟩
        · rw [if_pos hrw]
          exact Lhd.sent_repeats _ _ _ rfl
        · rw [Lhd.sent_disk hs, Function.update_self]
          intro o ho
          rw [blit_of_mem (Nat.zero_le o) (by omega), Nat.sub_zero]
          rfl
        · rw [hrw] at h
          cases h
    · rw [sfsRwblock, hr]
      refine ⟨fun h => ?_, fun h => absurd hs (h ha).1⟩
      exact absurd (h _ _ _ rfl).repeats (Lhd.sent_twice_not_repeats _ _ _)
  · obtain ⟨u', buf', hr⟩ := lhdIo_write_fault hsector hlt hrw ha
    refine ⟨fun _ h => absurd h ha, fun _ e d' v he => ?_⟩
    rw [sfsRwblock, rwLoop_of_lhdIo hr (by decide), if_neg (by decide)] at he
    obtain ⟨rfl, rfl, rfl⟩ : some FsErr.efault = e ∧
        { d with calls := d.calls + 1, buf := buf' } = d' ∧ u' = v := by
      simpa only [Except.ok.injEq, Prod.mk.injEq] using he
    refine ⟨⟨[], (List.append_nil _).symm, .inl (le_refl _), fun c hc => ?_⟩, fun h => ?_, fun h => ?_⟩
    · cases hc
    · cases h
    · cases h

theorem kept_blockio_read_iff (hiov : sfsBlocksize ≤ u.iov.sum) (hb : b < d.nsect)
    (hrw : u.rw = .read) :
    (∀ e d' v, sfsRwblock d (u.forDevice b) = .ok (e, d', v) →
      Transferred d d' u v b 0 sfsBlocksize e u.data) ↔
    (b < 2 ^ 23 ∨ ∃ j ≤ 10, d.Ends j .invsect) := by
  have hsector := Uio.forDevice_forSector (b := b) hiov
  have hlt : b % 2 ^ 23 < d.nsect := lt_of_le_of_lt (Nat.mod_le _ _) hb
  -- a result of the driver keeps the promise exactly if the sector is the block
  have hread : ∀ (e : Option FsErr) (d₁ : Lhd) (u₁ : Uio) (n : ℕ),
      sfsRwblock d (u.forDevice b) = .ok (e, d₁, u₁) → d.Reads d₁ (b % 2 ^ 23) (n + 1) →
      (e = none → u₁.area = blit u.area u.pos sfsBlocksize (d.disk (b % 2 ^ 23)) 0) →
      (¬ ∃ j ≤ 10, d.Ends j .invsect) →
      ((∀ e d' v, sfsRwblock d (u.forDevice b) = .ok (e, d', v) →
        Transferred d d' u v b 0 sfsBlocksize e u.data) ↔
          (b < 2 ^ 23 ∨ ∃ j ≤ 10, d.Ends j .invsect)) := by
    intro e d₁ u₁ n hr hd harea hno
    refine ⟨fun h => .inl ?_, fun h e' d' v he => ?_⟩
    · by_contra hlow
      exact hd.not_repeats (Nat.succ_pos n) (by omega) _ (h _ _ _ hr).repeats
    · have hb' : b % 2 ^ 23 = b := Nat.mod_eq_of_lt (h.resolve_right hno)
      rw [hb'] at hd harea
      obtain ⟨rfl, rfl, rfl⟩ : e = e' ∧ d₁ = d' ∧ u₁ = v := by simpa using hr.symm.trans he
      refine ⟨hd.repeats _, fun _ h => ?_, fun h _ => harea h⟩
      rw [hrw] at h
      cases h
  have hends : ∀ {j : ℕ}, d.Ends j .ok → ¬ ∃ j ≤ 10, d.Ends j .invsect := by
    rintro j h ⟨i, -, hi⟩
    obtain rfl := h.unique hi (by decide) (by decide)
    exact absurd (h.2.symm.trans hi.2) (by decide)
  rcases rwLoop_read hsector hlt hrw 10 with
    ⟨hall, d', hr, hd⟩ | ⟨j, hj, he, hr⟩ | ⟨j, hj, he, -, d', u', hr, hd, -, harea⟩ |
    ⟨j, hj, he, -, d', u', hr, hd⟩
  · refine hread _ d' _ 10 hr hd (fun h => by cases h) ?_
    rintro ⟨i, hi, h⟩
    exact absurd ((hall i hi).symm.trans h.2) (by decide)
  · refine ⟨fun _ => .inr ⟨j, hj, he⟩, fun _ e d' v h => ?_⟩
    rw [sfsRwblock, hr] at h
    cases h
  · exact hread _ d' u' j hr hd (fun _ => harea) (hends he)
  · exact hread _ d' u' j hr hd (fun h => by cases h) (hends he)

/-- A block is read and then written. -/
theorem Lhd.Reads.sent_repeats (h : d.Reads d' b m) {data w : Buffer} (hw : EqOn lhdSectsize data w) :
    d.Repeats (d'.sent b data 0) b (some w) := by
  obtain ⟨cmds, hlog, hlen, hall⟩ := h.log
  refine ⟨cmds ++ [⟨b, true, blit d'.buf 0 lhdSectsize data 0⟩], ?_, .inr ?_, fun c hc => ?_⟩
  · rw [Lhd.sent_log, hlog, List.append_assoc]
  · rw [Lhd.sent_calls, h.calls, List.length_append, hlen, List.length_singleton, Nat.add_assoc]
  · rcases List.mem_append.mp hc with hc | hc
    · refine ⟨(hall c hc).1, fun hwrite => ?_⟩
      rw [(hall c hc).2] at hwrite
      exact absurd hwrite (by decide)
    · rw [List.mem_singleton.mp hc]
      exact ⟨rfl, fun _ => ⟨w, rfl, blit_eqOn.trans hw⟩⟩

theorem Lhd.Reads.sent_twice_not_repeats (h : d.Reads d' b m) (hm : 0 < m) (data : Buffer)
    (w : Option Buffer) :
    ¬ d.Repeats { d'.sent b data 0 with calls := d'.calls + 2 } b w := by
  rintro ⟨cmds, hlog, hcalls, -⟩
  obtain ⟨cmds', hlog', hlen, -⟩ := h.log
  have hlength := congrArg List.length hlog
  simp only [Lhd.sent_log, hlog', List.length_append, List.length_singleton] at hlength
  simp only [h.calls] at hcalls
  omega

/-- `sfs_partialio` on a block of the volume reads it first. -/
theorem sfsPartialio_eq (hm : s.Maps u s₁ b) (hlen : skipstart + len ≤ sfsBlocksize) :
    sfsPartialio s u skipstart len = sfsReadblock s₁.dev b s₁.iobuf >>= fun (e, d, buf) =>
      if e.isSome then .ok (e, { s₁ with dev := d, iobuf := buf }, u)
      else movePartial { s₁ with dev := d, iobuf := buf } u b skipstart len := by
  rw [sfsPartialio, if_neg (by omega)]
  dsimp only
  rw [hm.1]
  change partialTransfer s₁ u b skipstart len = _
  rw [partialTransfer, if_neg fun h => hm.2 h.1, loadBlock, if_neg hm.2]
  cases sfsReadblock s₁.dev b s₁.iobuf with
  | error p => rfl
  | ok r => rfl

/-- For a write, the bytes go from the user to the buffer and from there to the block. -/
theorem movePartial_write {s₂ : Sfs} {u₁ : Uio} {buf : Buffer}
    (hu : uiomove s₂.iobuf skipstart len u = .ok (none, u₁, buf)) (hrw : u₁.rw = .write) :
    movePartial s₂ u b skipstart len = sfsWriteblock s₂.dev b buf >>= fun (e, d) =>
      .ok (e, { s₂ with dev := d, iobuf := buf }, u₁) := by
  rw [movePartial, hu]
  change (if u₁.rw = .write then _ else _) = _
  rw [if_pos hrw]
  rfl

/-- The second half of `sfs_partialio`, when the block was read. -/
theorem movePartial_iff (s₂ : Sfs) {j : ℕ} (hd : d.Reads s₂.dev b (j + 1))
    (hbuf : EqOn sfsBlocksize s₂.iobuf (d.disk b)) (hb : b < d.nsect)
    (hlen : skipstart + len ≤ sfsBlocksize) (hres : len ≤ u.resid) (hiov : u.resid ≤ u.iov.sum)
    (hlt : u.resid < wordSize) :
    (∀ e s' u', movePartial s₂ u b skipstart len = .ok (e, s', u') →
      Transferred d s'.dev u u' b skipstart len e (blit (d.disk b) skipstart len u.area u.pos)) ↔
    (u.rw = .write → u.Accessible len → d.status (j + 1) ≠ .media) := by
  have hnext : s₂.dev.next = d.status (j + 1) := hd.status 0
  rw [← hnext]
  by_cases ha : u.Accessible len
  · obtain ⟨u₁, buf, hu, hm, hc⟩ :=
      uiomove_ok ⟨hres, hres.trans hiov, hlt, ha⟩ s₂.iobuf skipstart
    cases hrw : u.rw with
    | read =>
      have hmove : movePartial s₂ u b skipstart len = .ok (none, { s₂ with iobuf := buf }, u₁) := by
        rw [movePartial, hu]
        change (if u₁.rw = .write then _ else _) = _
        rw [hm.rw, hrw, if_neg (by decide)]
        rfl
      rw [hmove]
      refine ⟨fun _ h => absurd h (by decide), fun _ e s' u' he => ?_⟩
      obtain ⟨rfl, rfl, rfl⟩ : none = e ∧ { s₂ with iobuf := buf } = s' ∧ u₁ = u' := by
        simpa only [Except.ok.injEq, Prod.mk.injEq] using he
      refine ⟨hd.repeats _, fun _ h => ?_, fun _ _ => ?_⟩
      · rw [hrw] at h
        cases h
      · rw [(hc.read hrw).1]
        exact blit_congr fun o ho => hbuf _ (by omega)
    | write =>
      obtain ⟨-, rfl⟩ := hc.write hrw
      have hdata : EqOn sfsBlocksize (blit s₂.iobuf skipstart len u.area u.pos)
          (blit (d.disk b) skipstart len u.area u.pos) := blit_eqOn_blit hbuf
      rw [movePartial_write hu (hm.rw.trans hrw)]
      have hb' : b < s₂.dev.nsect := by rw [hd.nsect]; exact hb
      rcases sfsWriteblock_cases hb' (blit s₂.iobuf skipstart len u.area u.pos) with
        ⟨hs, hr⟩ | ⟨hs, hr⟩ | ⟨hs, hr⟩
      · rw [hr, hs]
        exact ⟨fun _ _ _ => by decide, fun _ e s' u' he => by cases he⟩
      · rw [hr]
        refine ⟨fun _ _ _ => by rw [hs]; decide, fun _ e s' u' he => ?_⟩
        obtain ⟨rfl, rfl, rfl⟩ : none = e ∧ { s₂ with
            dev := s₂.dev.sent b (blit s₂.iobuf skipstart len u.area u.pos) 0,
            iobuf := blit s₂.iobuf skipstart len u.area u.pos } = s' ∧ u₁ = u' := by
          change Except.ok (none, _, u₁) = _ at he
          simpa only [Except.ok.injEq, Prod.mk.injEq] using he
        refine ⟨?_, fun _ _ => ?_, fun _ h => ?_⟩
        · rw [if_pos hrw]
          exact hd.sent_repeats hdata
        · rw [Lhd.sent_disk hs, Function.update_self]
          exact blit_eqOn.trans hdata
        · rw [hrw] at h
          cases h
      · rw [hr]
        refine ⟨fun h => ?_, fun h => absurd hs (h rfl ha)⟩
        exact absurd (h _ _ _ rfl).repeats (hd.sent_twice_not_repeats (Nat.succ_pos j) _ _)
  · obtain ⟨u₁, buf, hu⟩ := uiomove_fault hres (hres.trans hiov) hlt ha s₂.iobuf skipstart
    have hmove : movePartial s₂ u b skipstart len =
        .ok (some .efault, { s₂ with iobuf := buf }, u₁) := by
      rw [movePartial, hu]
      rfl
    rw [hmove]
    refine ⟨fun _ _ h => absurd h ha, fun _ e s' u' he => ?_⟩
    obtain ⟨rfl, rfl, rfl⟩ : some FsErr.efault = e ∧ { s₂ with iobuf := buf } = s' ∧ u₁ = u' := by
      simpa only [Except.ok.injEq, Prod.mk.injEq] using he
    exact ⟨hd.repeats _, fun h => absurd h (by decide), fun h => absurd h (by decide)⟩

theorem kept_partialio_iff (hm : s.Maps u s₁ b) (hb : b < s₁.dev.nsect)
    (hlen : skipstart + len ≤ sfsBlocksize) (hres : len ≤ u.resid) (hiov : u.resid ≤ u.iov.sum)
    (hlt : u.resid < wordSize) :
    (∀ e s' u', sfsPartialio s u skipstart len = .ok (e, s', u') →
      Transferred s₁.dev s'.dev u u' b skipstart len e
        (blit (s₁.dev.disk b) skipstart len u.area u.pos)) ↔
    (u.rw = .write → u.Accessible len →
      ∀ j ≤ 10, s₁.dev.Ends j .ok → s₁.dev.status (j + 1) ≠ .media) := by
  rw [sfsPartialio_eq hm hlen]
  rcases sfsReadblock_cases hb s₁.iobuf with
    ⟨hall, d, hr, hd⟩ | ⟨j, -, he, hr⟩ | ⟨j, hj, he, d, hd, hr⟩
  · rw [hr]
    refine ⟨fun _ _ _ j hj h => ?_, fun _ e s' u' he => ?_⟩
    · exact absurd ((hall j hj).symm.trans h.2) (by decide)
    · obtain ⟨rfl, rfl, rfl⟩ : some FsErr.eio = e ∧ { s₁ with dev := d } = s' ∧ u = u' := by
        change Except.ok (some FsErr.eio, _, u) = _ at he
        simpa only [Except.ok.injEq, Prod.mk.injEq] using he
      exact ⟨hd.repeats _, fun h => absurd h (by decide), fun h => absurd h (by decide)⟩
  · rw [hr]
    refine ⟨fun _ _ _ i _ h => ?_, fun _ e s' u' he => by cases he⟩
    obtain rfl := h.unique he (by decide) (by decide)
    exact absurd (h.2.symm.trans he.2) (by decide)
  · rw [hr]
    refine (movePartial_iff { s₁ with dev := d, iobuf := blit s₁.iobuf 0 lhdSectsize _ 0 }
      hd blit_eqOn hb hlen hres hiov hlt).trans ?_
    refine ⟨fun h hrw ha i _ hi => ?_, fun h hrw ha => h hrw ha j hj he⟩
    obtain rfl := hi.unique he (by decide) (by decide)
    exact h hrw ha

/-- **Exactly a safe transfer keeps its promise.** -/
theorem kept_iff (s : Sfs) (t : Transfer) (h : t.Valid s) : s.Kept t ↔ s.Safe t := by
  cases t with
  | readblock b data => exact iff_of_true (kept_readblock data h) trivial
  | writeblock b data => exact kept_writeblock_iff data h
  | blockio u =>
    obtain ⟨hres, hiov, -, hb⟩ := h
    refine forall₃_congr fun s₁ b hm => ?_
    refine (kept_blockio_device hm hres).trans ?_
    cases hrw : u.rw with
    | read => exact kept_blockio_read_iff (hres.trans hiov) (hb s₁ b hm) hrw
    | write => exact kept_blockio_write_iff (hres.trans hiov) (hb s₁ b hm) hrw
  | partialio u skipstart len =>
    obtain ⟨hlen, hres, hiov, hlt, hb⟩ := h
    exact forall₃_congr fun s₁ b hm => kept_partialio_iff hm (hb s₁ b hm) hlen hres hiov hlt

end Lemmas

/-- A volume of one block on a device whose first command ends in a media error. -/
def flakyDisk : Sfs where
  dev := {
    nsect := 1
    nsect_lt := by decide
    disk := fun _ _ => 0
    buf := fun _ => 0
    answer := fun n => (if n = 0 then .media else .ok, fun _ => 0)
    log := []
    calls := 0 }
  nblocks := 1
  nbits := 4096
  freemap := fun _ => true
  direct := fun _ => 0
  indirect := 0
  size := 0
  idbuf := fun _ => 0
  iobuf := fun _ => 0

/-- A block of ones is written, `sfs_writeblock` reports success, and the sector still holds zeros. -/
theorem not_kept_flakyDisk : ¬ ∀ t : Transfer, t.Valid flakyDisk → flakyDisk.Kept t := by
  intro h
  have hb : 0 < flakyDisk.dev.nsect := by decide
  have hkept := h (.writeblock 0 fun _ => 1) hb
  rcases sfsWriteblock_cases hb fun _ => 1 with ⟨hs, -⟩ | ⟨hs, -⟩ | ⟨-, hr⟩
  · exact absurd hs (by decide)
  · exact absurd hs (by decide)
  · have hdata := (hkept _ _ hr).2 rfl 0 (by decide)
    exact absurd hdata (by decide)

theorem kept_flakyDisk_iff :
    flakyDisk.Kept (.writeblock 0 fun _ => 1) ↔ flakyDisk.Safe (.writeblock 0 fun _ => 1) :=
  kept_iff flakyDisk (.writeblock 0 fun _ => 1) Nat.zero_lt_one

end Os161
