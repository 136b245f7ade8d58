import Os161.Lib.Prog
import Os161.Sfs.Volume

set_option autoImplicit false

/-!
# Disks

What is left of the device when its commands succeed: the sectors. A program of the file system does
the same on the disk as on the device.

* `SectorIo`: a request of `sfs_rwblock`; `lhdDevice`: how the driver serves it; `diskDevice`: how the
  disk does.
* **`lhdDevice_match`**: on a device that works, the same.
* **`lhdDevice_follow`**: the same as long as no command has failed.
-/

namespace Os161

open Buffer Transition

/-- A request of `sfs_rwblock`: a uio for one sector. -/
structure SectorIo where
  uio : Uio
  resid : uio.resid = lhdSectsize

/-- What comes back: the result and the uio. -/
abbrev SectorReply : Type := Option FsErr × Uio

/-- The device serves a request. -/
def lhdDevice (l : Lhd) (q : SectorIo) : Except FsPanic (SectorReply × Lhd) :=
  (sfsRwblock l q.uio).map fun r => ((r.1, r.2.2), r.2.1)

/-- The sectors of a device. -/
structure Disk where
  nsect : ℕ
  nsect_lt : nsect < wordSize
  sector : ℕ → Buffer

/-- Sector `b` is written. -/
def Disk.write (d : Disk) (b : ℕ) (data : Buffer) : Disk :=
  { d with sector := Function.update d.sector b data }

/-- The sector of a request. -/
def SectorIo.sector (q : SectorIo) : ℕ := q.uio.offset / lhdSectsize % wordSize

/-- A transfer of sector `b`. -/
def diskSector (d : Disk) (u : Uio) (b : ℕ) : Except FsPanic (SectorReply × Disk) :=
  match u.rw with
  | .read => do
    let (e, u, _) ← uiomove (d.sector b) 0 lhdSectsize u
    return ((e, u), d)
  | .write => do
    let (e, u, data) ← uiomove (fun _ => 0) 0 lhdSectsize u
    return ((e, u), if e.isSome then d else d.write b data)

/-- The disk serves a request. -/
def diskDevice (d : Disk) (q : SectorIo) : Except FsPanic (SectorReply × Disk) :=
  if q.uio.offset % lhdSectsize ≠ 0 ∨ d.nsect < wadd q.sector 1 then .error .devopEinval
  else diskSector d q.uio q.sector

/-- The device holds the sectors of the disk. -/
structure Lhd.Holds (l : Lhd) (d : Disk) : Prop where
  nsect : l.nsect = d.nsect
  sector : ∀ b, EqOn lhdSectsize (l.disk b) (d.sector b)

/-- No command has failed so far. -/
def Lhd.Good (l : Lhd) : Prop := ∀ n < l.log.length, (l.answer n).1 = .ok

/-- The device `l'` is the device `l` some commands later. -/
structure Lhd.Later (l l' : Lhd) : Prop where
  answer : l'.answer = l.answer
  length_le : l.log.length ≤ l'.log.length

section Moves

variable {u u' : Uio} {ptr ptr' : Buffer} {n k : ℕ}

/-- A transfer to the memory depends on the bytes that are transferred. -/
theorem uiomoveLoop_read_congr (iov : List ℕ) (hrw : u.rw = .read)
    (h : ∀ o, k ≤ o → o < k + n → ptr o = ptr' o) :
    (uiomoveLoop u k n ptr iov).map (fun r => (r.1, r.2.1)) =
      (uiomoveLoop u k n ptr' iov).map (fun r => (r.1, r.2.1)) := by
  induction iov generalizing u k n with
  | nil =>
    rw [uiomoveLoop, uiomoveLoop]
    split_ifs <;> rfl
  | cons len iov ih =>
    have hcopy : ∀ m ≤ n, (u.copy m ptr k).1 = (u.copy m ptr' k).1 := fun m hm => by
      rw [Uio.copy, Uio.copy, hrw]
      simp only
      rw [blit_congr fun o ho => h _ (by omega) (by omega)]
    have hptr : ∀ (m : ℕ) (b : Buffer), (u.copy m b k).2 = b := fun m b => by
      rw [Uio.copy, hrw]
    have hrw' : ∀ (m : ℕ) (b : Buffer), (u.copy m b k).1.rw = .read := fun m b => by
      rw [Uio.copy, hrw]
    rw [uiomoveLoop, uiomoveLoop]
    by_cases hn : n = 0 ∨ u.resid = 0
    · rw [if_pos hn, if_pos hn]
      rfl
    · rw [if_neg hn, if_neg hn]
      simp only [hptr]
      by_cases ha : u.Accessible (min len n)
      · rw [if_pos ha, if_pos ha, hcopy _ (Nat.min_le_right _ _)]
        split_ifs
        · rfl
        · exact ih (hrw' _ _) fun o h₁ h₂ => h o (by omega) (by omega)
      · rw [if_neg ha, if_neg ha]
        by_cases hv : u.valid - u.pos ≤ n
        · rw [hcopy _ hv]
          rfl
        · -- what can be accessed is less than what is wanted
          unfold Uio.Accessible at ha
          omega

/-- A transfer beyond the iovecs does not succeed. -/
theorem uiomoveLoop_short (iov : List ℕ) (hi : iov.sum < n) (hr : n ≤ u.resid)
    (hlt : u.resid < wordSize) : uiomoveLoop u k n ptr iov ≠ .ok (none, u', ptr') := by
  induction iov generalizing u k n ptr with
  | nil =>
    rw [uiomoveLoop, if_neg (by rw [List.sum_nil] at hi; omega)]
    exact fun h => by cases h
  | cons len iov ih =>
    rw [List.sum_cons] at hi
    rw [uiomoveLoop, if_neg (by omega), Nat.min_eq_left (by omega)]
    by_cases ha : u.Accessible len
    · have hres : ∀ b, ((u.copy len b k).1.advance len).resid = u.resid - len := fun b => by
        have hcopy : (u.copy len b k).1.resid = u.resid := by
          unfold Uio.copy
          cases u.rw <;> rfl
        rw [Uio.advance, hcopy, wsub_of_le (by omega) hlt]
      rw [if_pos ha]
      simp only
      rw [if_neg (by rw [hres]; omega)]
      exact ih (by omega) (by rw [hres]; omega) (by rw [hres]; omega)
    · rw [if_neg ha]
      exact fun h => by cases h

theorem uiomoveLoop_error (iov : List ℕ) {e : FsErr}
    (h : uiomoveLoop u k n ptr iov = .ok (some e, u', ptr')) : e = .efault := by
  induction iov generalizing u k n ptr with
  | nil =>
    rw [uiomoveLoop] at h
    split_ifs at h
    cases h
  | cons len iov ih =>
    rw [uiomoveLoop] at h
    simp only at h
    split_ifs at h with h₁ h₂ h₃
    · cases h
    · cases h
    · exact ih h
    · cases h
      rfl

/-- **What a transfer from the memory succeeds to move** is the same whatever was there. -/
theorem uiomove_write_eqOn {u₁ : Uio} {b b' : Buffer} (hrw : u.rw = .write) (hr : n ≤ u.resid)
    (hlt : u.resid < wordSize) (h : uiomove ptr 0 n u = .ok (none, u', b))
    (h' : uiomove ptr' 0 n u = .ok (none, u₁, b')) : EqOn n b b' := by
  by_cases hi : n ≤ u.iov.sum
  · by_cases ha : u.Accessible n
    · obtain ⟨v, c, he, -, hc⟩ := uiomove_ok ⟨hr, hi, hlt, ha⟩ ptr 0
      obtain ⟨v', c', he', -, hc'⟩ := uiomove_ok ⟨hr, hi, hlt, ha⟩ ptr' 0
      obtain ⟨-, rfl⟩ : v = u' ∧ c = b := by simpa using he.symm.trans h
      obtain ⟨-, rfl⟩ : v' = u₁ ∧ c' = b' := by simpa using he'.symm.trans h'
      rw [(hc.write hrw).2, (hc'.write hrw).2]
      intro o ho
      rw [blit_of_mem (Nat.zero_le o) (by omega), blit_of_mem (Nat.zero_le o) (by omega)]
    · obtain ⟨v, c, he⟩ := uiomove_fault hr hi hlt ha ptr 0
      rw [h] at he
      cases he
  · exact absurd h (uiomoveLoop_short u.iov (by omega) hr hlt)

end Moves

section Devices

variable {l l' : Lhd} {d : Disk} {q : SectorIo} {u u' : Uio} {e : Option FsErr} {b : ℕ}

theorem Lhd.Later.refl (l : Lhd) : l.Later l := ⟨rfl, le_refl _⟩

theorem Lhd.Later.trans {l'' : Lhd} (h : l.Later l') (h' : l'.Later l'') : l.Later l'' :=
  ⟨h'.answer.trans h.answer, h.length_le.trans h'.length_le⟩

theorem Lhd.command_length (b : ℕ) (w : Bool) :
    (l.command b w).log.length = l.log.length + 1 ∧ (l.command b w).answer = l.answer := by
  unfold Lhd.command Lhd.next
  simp only
  cases (l.answer l.log.length).1 <;> cases w <;> simp

/-- Each iteration of `lhd_io` sends a command, unless the memory of a write cannot be read. -/
theorem lhdSector_later (h : lhdSector l u b = .ok (e, l', u')) : l.Later l' ∧
    (l.log.length < l'.log.length ∨
      u.rw = .write ∧ ∀ u' buf, uiomove l.buf 0 lhdSectsize u ≠ .ok (none, u', buf)) := by
  unfold lhdSector at h
  cases hrw : u.rw with
  | write =>
    rw [hrw] at h
    simp only at h
    obtain ⟨⟨e₁, u₁, buf⟩, hm, h⟩ := bind_eq_ok.mp h
    cases e₁ with
    | some e₁ =>
      simp only [Option.isSome_some, if_true] at h
      cases h
      refine ⟨⟨rfl, le_refl _⟩, .inr ⟨rfl, fun u' buf hno => ?_⟩⟩
      rw [hno] at hm
      cases hm
    | none =>
      simp only [Option.isSome_none, Bool.false_eq_true, if_false] at h
      cases h
      obtain ⟨hlen, hans⟩ := Lhd.command_length (l := { l with buf := buf }) b true
      exact ⟨⟨hans, by rw [hlen]; exact Nat.le_succ _⟩, .inl (by rw [hlen]; exact Nat.lt_succ_self _)⟩
  | read =>
    rw [hrw] at h
    simp only at h
    obtain ⟨hlen, hans⟩ := Lhd.command_length (l := l) b false
    split_ifs at h with hok
    · obtain ⟨⟨e₁, u₁, buf⟩, -, h⟩ := bind_eq_ok.mp h
      cases h
      exact ⟨⟨hans, by simp only [hlen]; exact Nat.le_succ _⟩,
        .inl (by simp only [hlen]; exact Nat.lt_succ_self _)⟩
    · cases h
      exact ⟨⟨hans, by rw [hlen]; exact Nat.le_succ _⟩, .inl (by rw [hlen]; exact Nat.lt_succ_self _)⟩

theorem lhdLoop_later (n : ℕ) (h : lhdLoop n b l u = .ok (e, l', u')) : l.Later l' := by
  induction n generalizing b l u with
  | zero =>
    cases h
    exact Lhd.Later.refl _
  | succ n ih =>
    rw [lhdLoop] at h
    obtain ⟨⟨e₁, l₁, u₁⟩, hs, h⟩ := bind_eq_ok.mp h
    have hone := (lhdSector_later hs).1
    simp only at h
    split_ifs at h
    · cases h
      exact hone
    · exact hone.trans (ih h)

theorem lhdIo_later (h : lhdIo l u = .ok (e, l', u')) : l.Later l' := by
  unfold lhdIo at h
  simp only at h
  split_ifs at h
  · cases h
    exact ⟨rfl, le_refl _⟩
  · cases h
    exact ⟨rfl, le_refl _⟩
  · obtain ⟨hans, hlen⟩ := lhdLoop_later _ h
    exact ⟨hans, hlen⟩

/-- The first call of the driver. -/
theorem rwLoop_first (left : ℕ) (h : rwLoop left l u = .ok (e, l', u')) :
    ∃ e₁ l₁ u₁, lhdIo l u = .ok (e₁, l₁, u₁) ∧ e₁ ≠ some .einval ∧ l₁.Later l' := by
  induction left generalizing l u with
  | zero =>
    rw [rwLoop] at h
    obtain ⟨⟨e₁, l₁, u₁⟩, hs, h⟩ := bind_eq_ok.mp h
    simp only at h
    split_ifs at h with hinval
    cases h
    exact ⟨_, _, _, hs, hinval, Lhd.Later.refl _⟩
  | succ left ih =>
    rw [rwLoop] at h
    obtain ⟨⟨e₁, l₁, u₁⟩, hs, h⟩ := bind_eq_ok.mp h
    simp only at h
    split_ifs at h with hinval heio
    · obtain ⟨_, _, _, hs', -, hl⟩ := ih h
      exact ⟨_, _, _, hs, hinval, (lhdIo_later hs').trans hl⟩
    · cases h
      exact ⟨_, _, _, hs, hinval, Lhd.Later.refl _⟩

/-- `lhd_io` for one sector. -/
theorem lhdIo_sector (hres : u.resid = lhdSectsize) : lhdIo l u =
    if u.offset % lhdSectsize ≠ 0 ∨ l.nsect < wadd (u.offset / lhdSectsize % wordSize) 1 then
      .ok (some .einval, { l with calls := l.calls + 1 }, u)
    else lhdSector { l with calls := l.calls + 1 } u (u.offset / lhdSectsize % wordSize) := by
  have haligned : u.resid % lhdSectsize = 0 := by rw [hres, Nat.mod_self]
  have hlen : u.resid / lhdSectsize = 1 := by rw [hres, Nat.div_self (by decide)]
  unfold lhdIo
  simp only [haligned, hlen, ne_eq, not_true_eq_false, or_false]
  by_cases hoff : u.offset % lhdSectsize = 0
  · rw [if_neg (by omega)]
    by_cases hrange : l.nsect < wadd (u.offset / lhdSectsize % wordSize) 1
    · rw [if_pos hrange, if_pos (.inr hrange)]
    · rw [if_neg hrange, if_neg (by simp [hoff, hrange]), lhdLoop]
      cases lhdSector { l with calls := l.calls + 1 } u _ with
      | error p => rfl
      | ok r =>
        obtain ⟨e, l', u'⟩ := r
        cases e <;> rfl
  · rw [if_pos hoff, if_pos (.inl hoff)]

theorem Lhd.Holds.write (h : l.Holds d) {data data' : Buffer} (hdata : EqOn lhdSectsize data data')
    (hdisk : l'.disk = Function.update l.disk b data) (hn : l'.nsect = l.nsect) :
    l'.Holds (d.write b data') where
  nsect := hn.trans h.nsect
  sector c := by
    change EqOn lhdSectsize (l'.disk c) (Function.update d.sector b data' c)
    rw [hdisk]
    by_cases hc : c = b
    · rw [hc, Function.update_self, Function.update_self]
      exact hdata
    · rw [Function.update_of_ne hc, Function.update_of_ne hc]
      exact h.sector c

/-- Two runs with the same result and uio. -/
theorem map_eq_ok {α β : Type} {x : Except FsPanic (Option FsErr × Uio × α)}
    {y : Except FsPanic (Option FsErr × Uio × β)}
    (h : x.map (fun r => (r.1, r.2.1)) = y.map (fun r => (r.1, r.2.1))) :
    (∃ p, x = .error p ∧ y = .error p) ∨
      ∃ e u a b, x = .ok (e, u, a) ∧ y = .ok (e, u, b) := by
  cases x <;> cases y
  case error.error p p' =>
    cases h
    exact .inl ⟨_, rfl, rfl⟩
  case error.ok => cases h
  case ok.error => cases h
  case ok.ok r r' =>
    obtain ⟨e, u, a⟩ := r
    obtain ⟨e', u', b⟩ := r'
    cases h
    exact .inr ⟨_, _, a, b, rfl, rfl⟩

/-- **One sector**, if its command does not fail or there is none. -/
theorem lhdSector_match (h : l.Holds d) (hres : u.resid = lhdSectsize)
    (hok : l.next = .ok ∨ u.rw = .write ∧
      ∀ u' buf, uiomove l.buf 0 lhdSectsize u ≠ .ok (none, u', buf)) :
    (∃ p, lhdSector l u b = .error p ∧ diskSector d u b = .error p) ∨
    ∃ e l' u' d', lhdSector l u b = .ok (e, l', u') ∧ diskSector d u b = .ok ((e, u'), d') ∧
      e ≠ some .eio ∧ e ≠ some .einval ∧ l'.Holds d' := by
  have hlt : u.resid < wordSize := by rw [hres]; decide
  unfold lhdSector diskSector
  cases hrw : u.rw with
  | read =>
    have hn : l.next = .ok := hok.resolve_right (by rw [hrw]; simp)
    have hcommand : (l.command b false).buf = l.disk b ∧ (l.command b false).disk = l.disk ∧
        (l.command b false).nsect = l.nsect := by
      unfold Lhd.command
      simp only [hn]
      exact ⟨trivial, trivial, trivial⟩
    simp only [hn, if_true]
    rw [hcommand.1]
    rcases map_eq_ok (uiomoveLoop_read_congr (u := u) (k := 0) (n := lhdSectsize) u.iov hrw
      (fun o _ ho => h.sector b o (by omega))) with ⟨p, h₁, h₂⟩ | ⟨e, u', b₁, b₂, h₁, h₂⟩
    · refine .inl ⟨p, ?_, ?_⟩
      · rw [uiomove, h₁]
        rfl
      · rw [uiomove, h₂]
        rfl
    · refine .inr ⟨e, { l.command b false with buf := b₁ }, u', d, ?_, ?_, ?_, ?_, ?_⟩
      · rw [uiomove, h₁]
        rfl
      · rw [uiomove, h₂]
        rfl
      · rintro rfl
        exact absurd (uiomoveLoop_error _ h₁) (by decide)
      · rintro rfl
        exact absurd (uiomoveLoop_error _ h₁) (by decide)
      · refine ⟨hcommand.2.2.trans h.nsect, fun c => ?_⟩
        change EqOn lhdSectsize ((l.command b false).disk c) (d.sector c)
        rw [hcommand.2.1]
        exact h.sector c
  | write =>
    simp only
    rcases map_eq_ok (uiomoveLoop_write_congr (k := 0) (n := lhdSectsize) u.iov hrw l.buf fun _ => 0)
      with ⟨p, h₁, h₂⟩ | ⟨e, u', b₁, b₂, h₁, h₂⟩
    · refine .inl ⟨p, ?_, ?_⟩
      · rw [uiomove, h₁]
        rfl
      · rw [uiomove, h₂]
        rfl
    · rw [uiomove, h₁, uiomove, h₂]
      cases e with
      | some e =>
        obtain rfl := uiomoveLoop_error _ h₁
        exact .inr ⟨_, { l with buf := b₁ }, u', d, rfl, rfl, by simp, by simp, h.nsect, h.sector⟩
      | none =>
        have hn : l.next = .ok := hok.resolve_right fun hf => hf.2 u' b₁ h₁
        have hnext : ({ l with buf := b₁ } : Lhd).next = .ok := hn
        have hcommand : (({ l with buf := b₁ } : Lhd).command b true).disk =
            Function.update l.disk b b₁ ∧
            (({ l with buf := b₁ } : Lhd).command b true).nsect = l.nsect := by
          unfold Lhd.command
          simp only [hnext]
          exact ⟨trivial, trivial⟩
        refine .inr ⟨none, ({ l with buf := b₁ } : Lhd).command b true, u', d.write b b₂, ?_, rfl,
          by decide, by decide, h.write (uiomove_write_eqOn hrw (by rw [hres]) hlt h₁ h₂)
            hcommand.1 hcommand.2⟩
        change Except.ok (lhdCodeToErrno ({ l with buf := b₁ } : Lhd).next, _, _) = _
        rw [hnext]
        rfl

/-- **A request** whose command does not fail, or that is none. -/
theorem sfsRwblock_match (h : l.Holds d)
    (hok : l.next = .ok ∨ q.uio.rw = .write ∧
      ∀ u' buf, uiomove l.buf 0 lhdSectsize q.uio ≠ .ok (none, u', buf)) :
    (∃ p, lhdDevice l q = .error p ∧ diskDevice d q = .error p) ∨
    ∃ r l' d', lhdDevice l q = .ok (r, l') ∧ diskDevice d q = .ok (r, d') ∧ l'.Holds d' := by
  unfold lhdDevice sfsRwblock diskDevice SectorIo.sector
  rw [← h.nsect]
  by_cases hrange : q.uio.offset % lhdSectsize ≠ 0 ∨
      l.nsect < wadd (q.uio.offset / lhdSectsize % wordSize) 1
  · have he := lhdIo_sector (l := l) q.resid
    rw [if_pos hrange] at he
    rw [rwLoop_of_lhdIo he (by decide), if_pos rfl, if_pos hrange]
    exact .inl ⟨_, rfl, rfl⟩
  · rw [if_neg hrange]
    have hcalls : ({ l with calls := l.calls + 1 } : Lhd).Holds d := ⟨h.nsect, h.sector⟩
    rcases lhdSector_match (b := q.uio.offset / lhdSectsize % wordSize) hcalls q.resid hok with
      ⟨p, h₁, h₂⟩ | ⟨e, l', u', d', h₁, h₂, hne, hinval, hh⟩
    · refine .inl ⟨p, ?_, h₂⟩
      rw [rwLoop, lhdIo_sector q.resid, if_neg hrange, h₁]
      rfl
    · have he := lhdIo_sector (l := l) q.resid
      rw [if_neg hrange, h₁] at he
      refine .inr ⟨(e, u'), l', d', ?_, h₂, hh⟩
      rw [rwLoop_of_lhdIo he hne, if_neg hinval]
      rfl

theorem lhdDevice_later {r : SectorReply} (h : lhdDevice l q = .ok (r, l')) : l.Later l' := by
  unfold lhdDevice at h
  cases hr : sfsRwblock l q.uio with
  | error p =>
    rw [hr] at h
    cases h
  | ok t =>
    rw [hr] at h
    cases h
    obtain ⟨_, _, _, hs, -, hl⟩ := rwLoop_first 10 hr
    exact (lhdIo_later hs).trans hl

/-- **On a device that works** the requests are served as by the disk. -/
theorem lhdDevice_match (h : l.Holds d ∧ l.Works) (q : SectorIo) :
    Program.Match (fun l d => l.Holds d ∧ l.Works) (lhdDevice l q) (diskDevice d q) := by
  rcases sfsRwblock_match h.1 (.inl (h.2.status 0)) with ⟨p, h₁, h₂⟩ | ⟨r, l', d', h₁, h₂, hh⟩
  · rw [h₁, h₂]
    rfl
  · rw [h₁, h₂]
    refine ⟨rfl, hh, ?_⟩
    unfold Lhd.Works
    rw [(lhdDevice_later h₁).answer]
    exact h.2

theorem Lhd.Good.of_later (h : l'.Good) (hl : l.Later l') : l.Good := by
  intro n hn
  have := h n (lt_of_lt_of_le hn hl.length_le)
  rwa [hl.answer] at this

/-- A command that failed is not good. -/
theorem Lhd.Good.next_ok (h : l'.Good) (hl : l.Later l') (hlt : l.log.length < l'.log.length) :
    l.next = .ok := by
  have := h l.log.length hlt
  rwa [hl.answer] at this

/-- **As long as no command has failed** the requests are served as by the disk. -/
theorem lhdDevice_follow {r : SectorReply} (h : l.Holds d) (he : lhdDevice l q = .ok (r, l'))
    (hgood : l'.Good) : ∃ d', diskDevice d q = .ok (r, d') ∧ l'.Holds d' := by
  have hmatch : l.next = .ok ∨ q.uio.rw = .write ∧
      ∀ u' buf, uiomove l.buf 0 lhdSectsize q.uio ≠ .ok (none, u', buf) := by
    unfold lhdDevice at he
    cases hr : sfsRwblock l q.uio with
    | error p =>
      rw [hr] at he
      cases he
    | ok t =>
      rw [hr] at he
      cases he
      obtain ⟨_, _, _, hs, hinval, hl⟩ := rwLoop_first 10 hr
      have hlater := (lhdIo_later hs).trans hl
      rw [lhdIo_sector q.resid] at hs
      split_ifs at hs
      · cases hs
        exact absurd rfl hinval
      · rcases (lhdSector_later hs).2 with hlt | hfault
        · exact .inl (hgood.next_ok hlater (lt_of_lt_of_le hlt hl.length_le))
        · exact .inr hfault
  rcases sfsRwblock_match h hmatch with ⟨p, h₁, -⟩ | ⟨r', l₁, d', h₁, h₂, hh⟩
  · rw [h₁] at he
    cases he
  · rw [h₁] at he
    cases he
    exact ⟨d', h₂, hh⟩

end Devices

end Os161
