import Os161.Sfs.Vnops

set_option autoImplicit false

/-!
# Runs of the programs of SFS

A volume is the memory of SFS with the disk. What a program returns on it is said by a postcondition.

* `Vol`, `exec`: runs on the disk.
* `Returns x v Q`: the program does not panic, and its result and the volume afterwards meet `Q`.
* `returns_bind`, `returns_attempt`, `returns_loop`: the rules of composition.
* `returns_readblock`, `returns_writeblock`: the transfers.
-/

namespace Os161

open Buffer

/-- A mounted volume. -/
structure Vol where
  fs : SfsFs
  disk : Disk

namespace SfsFs

variable {α β : Type}

/-- The run of a program that nobody interrupts, on a disk. -/
def exec (x : SfsM α) (v : Vol) : Except FsPanic (Except FsErr α × Vol) :=
  (Program.run diskDevice x.run v.fs v.disk).map fun r => (r.1, ⟨r.2.1, r.2.2⟩)

/-- **The program returns**, and what it returns meets the postcondition. -/
def Returns (x : SfsM α) (v : Vol) (Q : Except FsErr α → Vol → Prop) : Prop :=
  ∃ r w, exec x v = .ok (r, w) ∧ Q r w

/-- The rest of a program meets the postcondition, or there is an error. -/
def Then (f : α → SfsM β) (Q : Except FsErr β → Vol → Prop) : Except FsErr α → Vol → Prop
  | .ok a, w => Returns (f a) w Q
  | .error e, w => Q (.error e) w

/-- The result meets `P`, or the error meets `E`. -/
def Ends (P : α → Vol → Prop) (E : FsErr → Vol → Prop) : Except FsErr α → Vol → Prop
  | .ok a, w => P a w
  | .error e, w => E e w

section Rules

variable {x : SfsM α} {f : α → SfsM β} {v : Vol} {Q Q' : Except FsErr α → Vol → Prop}
  {R : Except FsErr β → Vol → Prop}

theorem Returns.mono (h : Returns x v Q) (hQ : ∀ r w, Q r w → Q' r w) : Returns x v Q' := by
  obtain ⟨r, w, he, hq⟩ := h
  exact ⟨r, w, he, hQ r w hq⟩

theorem exec_bind (x : SfsM α) (f : α → SfsM β) (v : Vol) : exec (x >>= f) v =
    exec x v >>= fun r => match r.1 with
      | .ok a => exec (f a) r.2
      | .error e => .ok (.error e, r.2) := by
  unfold exec
  change (Program.run diskDevice (x.run >>= ExceptT.bindCont f) v.fs v.disk).map _ = _
  rw [Program.run_bind]
  cases Program.run diskDevice x.run v.fs v.disk with
  | error p => rfl
  | ok r =>
    obtain ⟨r, m, d⟩ := r
    cases r <;> rfl

/-- **One program after another.** -/
theorem returns_bind : Returns (x >>= f) v R ↔ Returns x v (Then f R) := by
  unfold Returns
  rw [exec_bind]
  cases exec x v with
  | error p => exact ⟨fun ⟨_, _, h, _⟩ => (by cases h), fun ⟨_, _, h, _⟩ => (by cases h)⟩
  | ok r =>
    obtain ⟨r, w⟩ := r
    constructor
    · rintro ⟨r', w', he, hR⟩
      refine ⟨r, w, rfl, ?_⟩
      cases r with
      | ok a => exact ⟨r', w', he, hR⟩
      | error e =>
        cases he
        exact hR
    · rintro ⟨r', w', he, hR⟩
      cases he
      cases r with
      | ok a => exact hR
      | error e => exact ⟨_, _, rfl, hR⟩

theorem Returns.bind {P : Except FsErr α → Vol → Prop} (h : Returns x v P)
    (hf : ∀ r w, P r w → Then f R r w) : Returns (x >>= f) v R :=
  returns_bind.mpr (h.mono hf)

theorem returns_pure {a : α} : Returns (pure a) v Q ↔ Q (.ok a) v :=
  ⟨fun ⟨_, _, h, hq⟩ => by cases h; exact hq, fun h => ⟨_, _, rfl, h⟩⟩

theorem returns_throw {e : FsErr} : Returns (throw e) v Q ↔ Q (.error e) v :=
  ⟨fun ⟨_, _, h, hq⟩ => by cases h; exact hq, fun h => ⟨_, _, rfl, h⟩⟩

theorem returns_get {f : SfsFs → SfsM β} : Returns (getFs >>= f) v R ↔ Returns (f v.fs) v R := by
  rw [returns_bind]
  exact ⟨fun ⟨_, _, h, hq⟩ => by cases h; exact hq, fun h => ⟨_, _, rfl, h⟩⟩

theorem returns_modify_last {g : SfsFs → SfsFs} {R : Except FsErr Unit → Vol → Prop} :
    Returns (modifyFs g) v R ↔ R (.ok ()) ⟨g v.fs, v.disk⟩ :=
  ⟨fun ⟨_, _, h, hq⟩ => by cases h; exact hq, fun h => ⟨_, _, rfl, h⟩⟩

theorem returns_modify {g : SfsFs → SfsFs} {f : Unit → SfsM β} :
    Returns (modifyFs g >>= f) v R ↔ Returns (f ()) ⟨g v.fs, v.disk⟩ R := by
  rw [returns_bind, returns_modify_last]
  rfl

theorem returns_kassert {p : Prop} [Decidable p] (hp : p) {f : Unit → SfsM β} :
    Returns (kassert p >>= f) v R ↔ Returns (f ()) v R := by
  rw [kassert, if_pos hp, returns_bind, returns_pure]
  rfl

theorem exec_attempt : exec (attempt x) v = (exec x v).map fun r => (.ok r.1, r.2) := by
  unfold exec
  change (Program.run diskDevice (x.run >>= fun r => pure (Except.ok r)) v.fs v.disk).map _ = _
  rw [Program.run_bind]
  cases Program.run diskDevice x.run v.fs v.disk <;> rfl

theorem returns_attempt {Q : Except FsErr (Except FsErr α) → Vol → Prop} :
    Returns (attempt x) v Q ↔ Returns x v fun r w => Q (.ok r) w := by
  unfold Returns
  rw [exec_attempt]
  cases exec x v with
  | error p => exact ⟨fun ⟨_, _, h, _⟩ => (by cases h), fun ⟨_, _, h, _⟩ => (by cases h)⟩
  | ok r =>
    constructor
    · rintro ⟨r', w', he, hq⟩
      cases he
      exact ⟨_, _, rfl, hq⟩
    · rintro ⟨r', w', he, hq⟩
      cases he
      exact ⟨_, _, rfl, hq⟩

/-- The result code of a result. -/
def code : Except FsErr α → Option FsErr
  | .ok _ => none
  | .error e => some e

theorem returns_status {Q : Except FsErr (Option FsErr) → Vol → Prop} :
    Returns (status x) v Q ↔ Returns x v fun r w => Q (.ok (code r)) w := by
  unfold status
  rw [returns_bind, returns_attempt]
  unfold Returns
  refine exists₂_congr fun r w => and_congr_right fun _ => ?_
  cases r with
  | ok a => exact returns_pure
  | error e => exact returns_pure

theorem returns_check_none {f : Unit → SfsM β} :
    Returns (check none >>= f) v R ↔ Returns (f ()) v R := by
  rw [check, returns_bind, returns_pure]
  rfl

theorem returns_lift {a : Except FsPanic α} {b : α} (h : a = .ok b) :
    Returns (lift a >>= f) v R ↔ Returns (f b) v R := by
  rw [h, lift, returns_bind, returns_pure]
  rfl

/-- **A loop** whose iterations keep an invariant or end it with an error. -/
theorem returns_loop {body : ℕ → β → SfsM β} (P : ℕ → β → Vol → Prop) (E : FsErr → Vol → Prop)
    {n : ℕ} (left i : ℕ) (hi : i + left = n)
    (hbody : ∀ i b w, i < n → P i b w → Returns (body i b) w (Ends (P (i + 1)) E)) (b : β)
    (hP : P i b v) : Returns (loop body left i b) v (Ends (P n) E) := by
  induction left generalizing i b v with
  | zero =>
    rw [loop, returns_pure]
    obtain rfl : i = n := by omega
    exact hP
  | succ left ih =>
    rw [loop]
    refine (hbody i b v (by omega) hP).bind fun r w hr => ?_
    cases r with
    | ok b' => exact ih (i + 1) (by omega) b' hr
    | error e => exact hr

end Rules

/-! ## Transfers -/

/-- The bytes of a sector. -/
def clip (b : Buffer) : Buffer := blit (fun _ => 0) 0 lhdSectsize b 0

@[simp] theorem clip_apply {b : Buffer} {o : ℕ} (ho : o < lhdSectsize) : clip b o = b o := by
  rw [clip, blit_of_mem (Nat.zero_le o) (by omega), Nat.zero_add, Nat.sub_zero]

theorem clip_eq_zero {b : Buffer} {o : ℕ} (ho : lhdSectsize ≤ o) : clip b o = 0 :=
  blit_of_not_mem (by omega)

@[simp] theorem clip_zero : clip (fun _ => 0) = fun _ => 0 := by
  funext o
  unfold clip blit
  split_ifs <;> rfl

@[simp] theorem clip_clip (b : Buffer) : clip (clip b) = clip b := by
  funext o
  by_cases ho : o < lhdSectsize
  · rw [clip_apply ho]
  · rw [clip_eq_zero (by omega), clip_eq_zero (by omega)]

section Transfers

variable {v : Vol} {u : Uio} {b : ℕ} {R : Except FsErr β → Vol → Prop}

/-- The disk serves a request for one of its sectors. -/
theorem diskDevice_eq {d : Disk} {q : SectorIo} (hoff : q.uio.offset = b * lhdSectsize)
    (hb : b < d.nsect) : diskDevice d q = diskSector d q.uio b := by
  have hlt := d.nsect_lt
  have hsector : q.sector = b := by
    rw [SectorIo.sector, hoff, Nat.mul_div_cancel _ (by decide), Nat.mod_eq_of_lt (by omega)]
  rw [diskDevice, hsector, if_neg]
  rw [hoff, Nat.mul_mod_left, wadd_of_lt (by omega)]
  omega

/-- A request that is served. -/
theorem returns_rwblock {q : SfsFs → SectorIo} {f : SectorReply → SfsM β} {r : SectorReply} {d : Disk}
    (h : diskDevice v.disk (q v.fs) = .ok (r, d)) :
    Returns (sfsRwblock q >>= f) v R ↔ Returns (f r) ⟨v.fs, d⟩ R := by
  have he : exec (sfsRwblock q) v = .ok (.ok r, ⟨v.fs, d⟩) := by
    unfold exec sfsRwblock
    change (Program.run diskDevice (Program.request q >>= fun r => pure (Except.ok r)) _ _).map _ = _
    rw [Program.run_bind, Program.run_request, h]
    rfl
  rw [returns_bind, Returns, he]
  exact ⟨fun ⟨_, _, h, hq⟩ => by cases h; exact hq, fun h => ⟨_, _, rfl, h⟩⟩

theorem returns_readblock {f : Buffer → SfsM β} (hb : b < v.disk.nsect) :
    Returns (sfsReadblock b >>= f) v R ↔ Returns (f (clip (v.disk.sector b))) v R := by
  obtain ⟨u', buf, he, -, hc⟩ := uiomove_ok ((sfsuio_forSector (b := b) (fun _ => 0) .read).fits (.inl rfl))
    (v.disk.sector b) 0
  have hio : diskDevice v.disk ⟨sfsuio (fun _ => 0) b .read, rfl⟩ = .ok ((none, u'), v.disk) := by
    rw [diskDevice_eq rfl hb, diskSector]
    change (uiomove (v.disk.sector b) 0 lhdSectsize _ >>= _) = _
    rw [he]
    rfl
  have harea : u'.area = clip (v.disk.sector b) := (hc.read rfl).1
  rw [← harea]
  unfold sfsReadblock
  rw [bind_assoc, returns_rwblock (q := fun _ => ⟨sfsuio (fun _ => 0) b .read, rfl⟩) hio]
  rfl

theorem returns_writeblock_last {data : SfsFs → Buffer} {R : Except FsErr Unit → Vol → Prop}
    (hb : b < v.disk.nsect) :
    Returns (sfsWriteblock b data) v R ↔ R (.ok ()) ⟨v.fs, v.disk.write b (clip (data v.fs))⟩ := by
  obtain ⟨u', buf, he, -, hc⟩ :=
    uiomove_ok ((sfsuio_forSector (b := b) (data v.fs) .write).fits (.inl rfl)) (fun _ => 0) 0
  have hbuf : buf = clip (data v.fs) := (hc.write rfl).2
  have hio : diskDevice v.disk ⟨sfsuio (data v.fs) b .write, rfl⟩ =
      .ok ((none, u'), v.disk.write b (clip (data v.fs))) := by
    rw [diskDevice_eq rfl hb, diskSector]
    change (uiomove (fun _ => 0) 0 lhdSectsize _ >>= _) = _
    rw [he, hbuf]
    rfl
  unfold sfsWriteblock
  rw [returns_rwblock (q := fun m => ⟨sfsuio (data m) b .write, rfl⟩) hio]
  exact returns_pure

theorem returns_writeblock {data : SfsFs → Buffer} {f : Unit → SfsM β} (hb : b < v.disk.nsect) :
    Returns (sfsWriteblock b data >>= f) v R ↔
      Returns (f ()) ⟨v.fs, v.disk.write b (clip (data v.fs))⟩ R := by
  rw [returns_bind, returns_writeblock_last hb]
  rfl

end Transfers

end SfsFs

end Os161
