import Mathlib.Algebra.Order.Ring.Int
import Mathlib.Algebra.Order.Pi
import Os161.Vfs.Path

set_option autoImplicit false

/-!
# The balance of the references

A reference belongs to the running call, to the current directory, to a `VOP_RECLAIM` that failed, or
to the rest of the system. Each function is described by the references that it owns before and
after.

* `Owns`: how the counts are made up; `handed`: the reference that a result carries.
* **`VfsCall.balance`**: a call of the vfs layer changes no count beyond that.
-/

namespace Os161

open Hoare Transition

/-- One reference to `v`. -/
def oneRef (v : VnodeId) : VnodeId → ℤ := Pi.single v 1

/-- The reference of the current directory. -/
def cwdRefs (cwd : Option VnodeId) : VnodeId → ℤ := cwd.elim 0 oneRef

/-- The reference that comes with a result. -/
def handed {α : Type} (new : α → VnodeId) : Except VfsErr α → VnodeId → ℤ
  | .ok a => oneRef (new a)
  | .error _ => 0

variable {σ : Type}

/-- **What the counts are made up of**: the references of the rest of the system, of the running
call, of the current directory and of failed reclaims. -/
structure Owns (base : VnodeId → ℤ) (devs : List KnownDev) (cwd : Option VnodeId)
    (own : VnodeId → ℤ) (s : VfsState σ) : Prop where
  devs_eq : s.devs = devs
  cwd_eq : s.cwd = cwd
  refcount : ∀ v, (s.refcount v : ℤ) = base v + own v + cwdRefs cwd v + s.kept v

/-- The `KASSERT`s hold: a device without a file system can be handed back. -/
def KnownDev.Valid (kd : KnownDev) : Prop :=
  (kd.fs = none → kd.device ≠ none) ∧ (kd.fs = some .swap → kd.rawname ≠ none) ∧
    (kd.rawname ≠ none → kd.device ≠ none)

/-- What the calls rely on to run to their end. -/
structure Runs (ops : FsOps σ) (base : VnodeId → ℤ) (devs : List KnownDev)
    (cwd : Option VnodeId) : Prop where
  base : 0 ≤ base
  devs : ∀ kd ∈ devs, kd.Valid
  cwd : ∀ v, cwd = some v → ops.vnFs v ≠ none

section Rules

variable {ops : FsOps σ} {base : VnodeId → ℤ} {devs : List KnownDev} {cwd : Option VnodeId}
  {own : VnodeId → ℤ} {ok : Prop}

theorem oneRef_nonneg (v : VnodeId) : 0 ≤ oneRef v :=
  Pi.single_nonneg.mpr zero_le_one

theorem cwdRefs_nonneg (cwd : Option VnodeId) : 0 ≤ cwdRefs cwd := by
  cases cwd with
  | none => exact le_rfl
  | some v => exact oneRef_nonneg v

theorem handed_nonneg {α : Type} (new : α → VnodeId) (r : Except VfsErr α) : 0 ≤ handed new r := by
  cases r with
  | error e => exact le_rfl
  | ok a => exact oneRef_nonneg (new a)

theorem oneRef_self (v : VnodeId) : oneRef v v = 1 := Pi.single_eq_same ..

theorem oneRef_of_ne {v w : VnodeId} (h : w ≠ v) : oneRef v w = 0 := Pi.single_eq_of_ne h ..

theorem Owns.addRef {s : VfsState σ} (h : Owns base devs cwd own s) (v : VnodeId) :
    Owns base devs cwd (own + oneRef v) (s.addRef v) := by
  refine ⟨h.devs_eq, h.cwd_eq, fun w => ?_⟩
  have hw := h.refcount w
  unfold VfsState.addRef
  dsimp only [Pi.add_apply]
  by_cases he : w = v
  · subst he
    rw [Function.update_self, oneRef_self]
    push_cast
    omega
  · rw [Function.update_of_ne he, oneRef_of_ne he]
    omega

theorem vnodeIncref_spec (v : VnodeId) :
    Triple ok (Owns (σ := σ) base devs cwd own) (vnodeIncref v)
      (fun _ => Owns base devs cwd (own + oneRef v)) :=
  Triple.of_ok fun _ hs => ⟨(), _, rfl, hs.addRef v⟩

theorem vop_spec {α : Type} (op : σ → α × σ) :
    Triple ok (Owns base devs cwd own) (vop op) (fun _ => Owns base devs cwd own) :=
  Triple.of_ok fun _ hs => ⟨_, _, rfl, hs.devs_eq, hs.cwd_eq, hs.refcount⟩

theorem vopRef_spec {α : Type} (new : α → VnodeId) (op : σ → Except VfsErr α × σ) :
    Triple ok (Owns base devs cwd own) (vopRef new op)
      (fun r => Owns base devs cwd (own + handed new r)) := by
  refine Triple.of_ok fun s hs => ?_
  have hs' : Owns base devs cwd own { s with fs := (op s.fs).2 } :=
    ⟨hs.devs_eq, hs.cwd_eq, hs.refcount⟩
  unfold vopRef
  dsimp only
  cases (op s.fs).1 with
  | error e => exact ⟨.error e, _, rfl, by rw [handed, add_zero]; exact hs'⟩
  | ok a => exact ⟨.ok a, _, rfl, hs'.addRef (new a)⟩

/-- **A reference is dropped** that the call owns. -/
theorem vnodeDecref_owned (hown : 0 ≤ own) (v : VnodeId) :
    Triple (0 ≤ base) (Owns base devs cwd (own + oneRef v)) (vnodeDecref ops v)
      (fun _ => Owns base devs cwd own) := by
  intro s hs
  have hv := hs.refcount v
  rw [Pi.add_apply, oneRef_self] at hv
  have hother : ∀ w ≠ v, (s.refcount w : ℤ) = base w + own w + cwdRefs cwd w + s.kept w := by
    intro w hw
    have := hs.refcount w
    rw [Pi.add_apply, oneRef_of_ne hw] at this
    omega
  unfold vnodeDecref
  by_cases hzero : s.refcount v = 0
  -- The count is at least what the call owns.
  · rw [if_pos hzero]
    intro hbase
    have h₁ : 0 ≤ base v := hbase v
    have h₂ : 0 ≤ own v := hown v
    have h₃ : 0 ≤ cwdRefs cwd v := cwdRefs_nonneg cwd v
    omega
  · rw [if_neg hzero]
    by_cases hmany : 1 < s.refcount v
    · rw [if_pos hmany]
      refine ⟨hs.devs_eq, hs.cwd_eq, fun w => ?_⟩
      dsimp only
      by_cases hw : w = v
      · rw [hw, Function.update_self]
        omega
      · rw [Function.update_of_ne hw]
        exact hother w hw
    · rw [if_neg hmany]
      dsimp only
      by_cases hlet : (ops.reclaim v s.fs).1 = true
      · rw [if_pos hlet]
        refine ⟨hs.devs_eq, hs.cwd_eq, fun w => ?_⟩
        dsimp only
        by_cases hw : w = v
        · rw [hw, Function.update_self]
          omega
        · rw [Function.update_of_ne hw]
          exact hother w hw
      · rw [if_neg hlet]
        refine ⟨hs.devs_eq, hs.cwd_eq, fun w => ?_⟩
        dsimp only
        by_cases hw : w = v
        · rw [hw, Function.update_self]
          omega
        · rw [Function.update_of_ne hw]
          exact hother w hw

theorem vnodeDecref_spec (hown : 0 ≤ own) (v : VnodeId) :
    Triple (Runs ops base devs cwd) (Owns base devs cwd (own + oneRef v)) (vnodeDecref ops v)
      (fun _ => Owns base devs cwd own) :=
  (vnodeDecref_owned hown v).weaken Runs.base

/-! ## The start of a path -/

theorem vfsGetcurdir_spec :
    Triple ok (Owns (σ := σ) base devs cwd own) vfsGetcurdir
      (fun r s => Owns base devs cwd (own + handed id r) s ∧ ∀ v, r = .ok v → cwd = some v) := by
  refine Triple.get_bind fun s hs => ?_
  cases hcwd : s.cwd with
  | none =>
    refine Triple.pure fun t ht => ⟨?_, nofun⟩
    rw [ht, handed, add_zero]
    exact hs
  | some v =>
    refine Triple.of_ok fun t ht => ⟨.ok v, t.addRef v, rfl, ?_, fun w hw => ?_⟩
    · rw [ht]
      exact hs.addRef v
    · cases hw
      exact hs.cwd_eq.symm.trans hcwd

/-- The `KASSERT`s of `vfs_getroot` hold. -/
theorem KnownDev.Valid.getvnode_ok {kd : KnownDev} (h : kd.Valid) {n : Str}
    (hname : kd.name = n → kd.fs = none ∧ kd.rawname = none) : ∃ r, kd.getvnode n = .ok r := by
  obtain ⟨hdev, -, hraw⟩ := h
  unfold KnownDev.getvnode
  by_cases hn : kd.name = n
  · obtain ⟨hfs, hr⟩ := hname hn
    rw [if_pos hn, kassert_bind hfs, kassert_bind hr, kassert_bind (hdev hfs)]
    exact ⟨_, rfl⟩
  · rw [if_neg hn]
    by_cases hr : kd.rawname = some n
    · rw [if_pos hr, kassert_bind (hraw (by rw [hr]; exact Option.some_ne_none n))]
      exact ⟨_, rfl⟩
    · rw [if_neg hr]
      exact ⟨_, rfl⟩

theorem KnownDev.Valid.getroot_ok {kd : KnownDev} (h : kd.Valid) (n : Str) :
    ∃ r, kd.getroot n = .ok r := by
  unfold KnownDev.getroot
  cases hfs : kd.fs with
  | none =>
    dsimp only
    split_ifs with hr
    · exact ⟨_, rfl⟩
    · exact h.getvnode_ok fun hn => ⟨hfs, not_not.mp fun hne => hr ⟨hne, hn⟩⟩
  | some k =>
    cases k with
    | swap =>
      dsimp only
      split_ifs with hr
      · exact ⟨_, rfl⟩
      · exact h.getvnode_ok fun hn => absurd ⟨h.2.1 hfs, hn⟩ hr
    | fs f =>
      dsimp only
      split_ifs with hr
      · exact ⟨_, rfl⟩
      · exact h.getvnode_ok fun hn => absurd (.inl hn) hr

theorem vfsGetroot_ok (h : ∀ kd ∈ devs, kd.Valid) (n : Str) : ∃ r, vfsGetroot devs n = .ok r := by
  induction devs with
  | nil => exact ⟨_, rfl⟩
  | cons kd devs ih =>
    obtain ⟨r, hr⟩ := (h kd List.mem_cons_self).getroot_ok n
    rw [vfsGetroot, hr]
    cases r with
    | some r => exact ⟨r, rfl⟩
    | none => exact ih fun k hk => h k (List.mem_cons_of_mem kd hk)

theorem vfsGetrootRef_spec (devname : Str) :
    Triple (Runs ops base devs cwd) (Owns base devs cwd own) (vfsGetrootRef ops devname)
      (fun r => Owns base devs cwd (own + handed id r)) := by
  refine Triple.get_bind_keep fun s hs => Triple.lift_bind (fun hruns => ?_) fun r _ => ?_
  · rw [hs.devs_eq]
    exact vfsGetroot_ok hruns.devs devname
  match r with
  | .error e =>
    refine Triple.pure fun t ht => ?_
    rw [handed, add_zero]
    exact ht
  | .ok (.root f) => exact vopRef_spec id _
  | .ok (.device v) => exact (vnodeIncref_spec v).bind fun _ => Triple.pure fun _ ht => ht

/-- A result whose reference is the call's. -/
theorem handed_map {α β : Type} (new : α → VnodeId) (new' : β → VnodeId) {f : α → β}
    (hf : ∀ a, new' (f a) = new a) (r : Except VfsErr α) : handed new' (r.map f) = handed new r := by
  cases r with
  | error e => rfl
  | ok a => exact congrArg oneRef (hf a)

theorem getdevice_spec (hown : 0 ≤ own) (path : Str) :
    Triple (Runs ops base devs cwd) (Owns base devs cwd own) (getdevice ops path)
      (fun r => Owns base devs cwd (own + handed Prod.snd r)) := by
  unfold getdevice
  split
  · refine (vfsGetrootRef_spec _).bind fun r => Triple.pure fun t ht => ?_
    rw [handed_map id Prod.snd (fun _ => rfl)]
    exact ht
  · refine Triple.get_bind_keep fun s _ => ?_
    cases s.bootfs with
    | none =>
      refine Triple.pure fun t ht => ?_
      rw [handed, add_zero]
      exact ht
    | some v => exact (vnodeIncref_spec v).bind fun _ => Triple.pure fun _ ht => ht
  · refine vfsGetcurdir_spec.bind fun r => ?_
    cases r with
    | error e => exact Triple.pure fun t ht => ht.1
    | ok vn =>
      dsimp only
      cases hf : ops.vnFs vn with
      | none => exact Triple.error fun s hs hruns => hruns.cwd vn (hs.2 vn rfl) hf
      | some f =>
        refine Triple.bind ((vopRef_spec id _).mono (fun _ hs => hs.1) fun _ _ h => h) fun r => ?_
        rw [add_right_comm]
        refine (vnodeDecref_spec (add_nonneg hown (handed_nonneg id r)) vn).bind fun _ =>
          Triple.pure fun t ht => ?_
        rw [handed_map id Prod.snd (fun _ => rfl)]
        exact ht
  · refine vfsGetcurdir_spec.bind fun r => Triple.pure fun t ht => ?_
    rw [handed_map id Prod.snd (fun _ => rfl)]
    exact ht.1

/-! ## The calls -/

/-- A result without a reference. -/
theorem owns_error {α : Type} {new : α → VnodeId} {e : VfsErr} {s : VfsState σ} :
    Owns base devs cwd (own + handed new (.error e)) s ↔ Owns base devs cwd own s := by
  rw [handed, add_zero]

/-- `VOP_DECREF` on the way out, when the call has one more reference in its result. -/
theorem vnodeDecref_handed_spec {α : Type} (hown : 0 ≤ own) (v : VnodeId) (new : α → VnodeId)
    (r : Except VfsErr α) :
    Triple (Runs ops base devs cwd) (Owns base devs cwd (own + oneRef v + handed new r))
      (vnodeDecref ops v) (fun _ => Owns base devs cwd (own + handed new r)) := by
  rw [add_right_comm]
  exact vnodeDecref_spec (add_nonneg hown (handed_nonneg new r)) v

theorem vfsLookparent_spec (hown : 0 ≤ own) (path : Str) (buflen : ℕ) :
    Triple (Runs ops base devs cwd) (Owns base devs cwd own) (vfsLookparent ops path buflen)
      (fun r => Owns base devs cwd (own + handed Prod.fst r)) := by
  refine (getdevice_spec hown path).bind fun r => ?_
  cases r with
  | error e => exact Triple.pure fun _ ht => ht
  | ok r =>
    obtain ⟨subpath, startvn⟩ := r
    refine Triple.bind (Q := fun r => Owns base devs cwd (own + oneRef startvn +
      handed Prod.fst r)) ?_ fun r => ?_
    · refine Triple.ite (fun _ => ?_) fun _ => vopRef_spec _ _
      exact Triple.pure fun t ht => owns_error.mpr ht
    · exact (vnodeDecref_handed_spec hown startvn Prod.fst r).bind fun _ =>
        Triple.pure fun _ ht => ht

theorem vfsLookup_spec (hown : 0 ≤ own) (path : Str) :
    Triple (Runs ops base devs cwd) (Owns base devs cwd own) (vfsLookup ops path)
      (fun r => Owns base devs cwd (own + handed id r)) := by
  refine (getdevice_spec hown path).bind fun r => ?_
  cases r with
  | error e => exact Triple.pure fun _ ht => ht
  | ok r =>
    obtain ⟨subpath, startvn⟩ := r
    refine Triple.ite (fun _ => Triple.pure fun _ ht => ht) fun _ => ?_
    refine Triple.bind (vopRef_spec id _) fun r => ?_
    exact (vnodeDecref_handed_spec hown startvn id r).bind fun _ => Triple.pure fun _ ht => ht

theorem openVnode_spec (hown : 0 ≤ own) (path : Str) (openflags mode : ℕ) :
    Triple (Runs ops base devs cwd) (Owns base devs cwd own) (openVnode ops path openflags mode)
      (fun r => Owns base devs cwd (own + handed id r)) := by
  refine Triple.ite (fun _ => ?_) fun _ => vfsLookup_spec hown path
  refine (vfsLookparent_spec hown path nameLen).bind fun r => ?_
  cases r with
  | error e => exact Triple.pure fun _ ht => ht
  | ok r =>
    obtain ⟨dir, name⟩ := r
    refine Triple.bind (vopRef_spec id _) fun r => ?_
    exact (vnodeDecref_handed_spec hown dir id r).bind fun _ => Triple.pure fun _ ht => ht

theorem vfsOpen_spec (hown : 0 ≤ own) (path : Str) (openflags mode : ℕ) :
    Triple (Runs ops base devs cwd) (Owns base devs cwd own) (vfsOpen ops path openflags mode)
      (fun r => Owns base devs cwd (own + handed id r)) := by
  refine Triple.ite (fun _ => Triple.pure fun _ ht => owns_error.mpr ht) fun _ => ?_
  refine (openVnode_spec hown path openflags mode).bind fun r => ?_
  have hfail : ∀ (vn : VnodeId) (e : VfsErr), Triple (Runs ops base devs cwd)
      (Owns base devs cwd (own + oneRef vn)) (do vnodeDecref ops vn; return .error e)
      (fun r : Except VfsErr VnodeId => Owns base devs cwd (own + handed id r)) := fun vn e =>
    (vnodeDecref_spec hown vn).bind fun _ => Triple.pure fun _ ht => owns_error.mpr ht
  cases r with
  | error e => exact Triple.pure fun _ ht => ht
  | ok vn =>
    refine (vop_spec _).bind fun r => ?_
    cases r with
    | some e => exact hfail vn e
    | none =>
      refine Triple.bind (Q := fun _ => Owns base devs cwd (own + oneRef vn)) ?_ fun r => ?_
      · refine Triple.ite (fun _ => Triple.pure fun _ ht => ht) fun _ => ?_
        exact Triple.ite (fun _ => Triple.pure fun _ ht => ht) fun _ => vop_spec _
      · cases r with
        | some e => exact hfail vn e
        | none => exact Triple.pure fun _ ht => ht

theorem vfsRemove_spec (hown : 0 ≤ own) (path : Str) :
    Triple (Runs ops base devs cwd) (Owns base devs cwd own) (vfsRemove ops path)
      (fun _ => Owns base devs cwd own) := by
  refine (vfsLookparent_spec hown path nameLen).bind fun r => ?_
  cases r with
  | error e => exact Triple.pure fun _ ht => owns_error.mp ht
  | ok r =>
    obtain ⟨dir, name⟩ := r
    refine (vop_spec _).bind fun r => ?_
    exact (vnodeDecref_spec hown dir).bind fun _ => Triple.pure fun _ ht => ht

/-- The end of `vfs_rename` and `vfs_link`: the operation, if both vnodes are of one file system,
and the two `VOP_DECREF`s. -/
theorem decrefBoth_spec (hown : 0 ≤ own) (v w : VnodeId) (c : Prop) [Decidable c]
    (op : σ → Option VfsErr × σ) :
    Triple (Runs ops base devs cwd) (Owns base devs cwd (own + oneRef v + oneRef w))
      (do
        let result ← (if c then pure (some .exdev) else vop op : VfsM σ _)
        vnodeDecref ops w
        vnodeDecref ops v
        return (result.elim (.ok ()) .error : Except VfsErr Unit))
      (fun _ => Owns base devs cwd own) := by
  refine Triple.bind (Q := fun _ => Owns base devs cwd (own + oneRef v + oneRef w)) ?_ fun r => ?_
  · exact Triple.ite (fun _ => Triple.pure fun _ ht => ht) fun _ => vop_spec _
  · refine (vnodeDecref_spec (add_nonneg hown (oneRef_nonneg v)) w).bind fun _ => ?_
    exact (vnodeDecref_spec hown v).bind fun _ => Triple.pure fun _ ht => ht

theorem vfsRename_spec (hown : 0 ≤ own) (oldpath newpath : Str) :
    Triple (Runs ops base devs cwd) (Owns base devs cwd own) (vfsRename ops oldpath newpath)
      (fun _ => Owns base devs cwd own) := by
  refine (vfsLookparent_spec hown oldpath nameLen).bind fun r => ?_
  cases r with
  | error e => exact Triple.pure fun _ ht => owns_error.mp ht
  | ok r =>
    obtain ⟨olddir, oldname⟩ := r
    refine (vfsLookparent_spec (add_nonneg hown (oneRef_nonneg olddir)) newpath nameLen).bind
      fun r => ?_
    cases r with
    | error e =>
      refine Triple.bind (Q := fun _ => Owns base devs cwd own) ?_ fun _ =>
        Triple.pure fun _ ht => ht
      exact (vnodeDecref_spec hown olddir).mono (fun _ ht => owns_error.mp ht) fun _ _ h => h
    | ok r =>
      obtain ⟨newdir, newname⟩ := r
      exact decrefBoth_spec hown olddir newdir _ _

theorem vfsLink_spec (hown : 0 ≤ own) (oldpath newpath : Str) :
    Triple (Runs ops base devs cwd) (Owns base devs cwd own) (vfsLink ops oldpath newpath)
      (fun _ => Owns base devs cwd own) := by
  refine (vfsLookup_spec hown oldpath).bind fun r => ?_
  cases r with
  | error e => exact Triple.pure fun _ ht => owns_error.mp ht
  | ok oldfile =>
    refine (vfsLookparent_spec (add_nonneg hown (oneRef_nonneg oldfile)) newpath nameLen).bind
      fun r => ?_
    cases r with
    | error e =>
      refine Triple.bind (Q := fun _ => Owns base devs cwd own) ?_ fun _ =>
        Triple.pure fun _ ht => ht
      exact (vnodeDecref_spec hown oldfile).mono (fun _ ht => owns_error.mp ht) fun _ _ h => h
    | ok r =>
      obtain ⟨newdir, newname⟩ := r
      exact decrefBoth_spec hown oldfile newdir _ _

/-- **The current directory changes**, and its reference with it, when the call succeeds. -/
def Moved (base : VnodeId → ℤ) (devs : List KnownDev) (cwd : Option VnodeId) (own : VnodeId → ℤ)
    (dir : VnodeId → Prop) : Except VfsErr Unit → VfsState σ → Prop
  | .error _, s => Owns base devs cwd own s
  | .ok _, s => ∃ v, dir v ∧ Owns base devs (some v) own s

theorem vfsSetcurdir_spec (hown : 0 ≤ own) (dir : VnodeId) :
    Triple (Runs ops base devs cwd) (Owns base devs cwd own) (vfsSetcurdir ops dir)
      (Moved base devs cwd own (· = dir)) := by
  refine (vop_spec _).bind fun r => ?_
  match r with
  | .error e => exact Triple.pure fun _ ht => ht
  | .ok false => exact Triple.pure fun _ ht => ht
  | .ok true =>
    refine (vnodeIncref_spec dir).bind fun _ => Triple.get_bind_keep fun s hs => ?_
    -- The new reference is that of the directory, and the old one is the call's.
    refine Triple.bind (Q := fun _ => Owns base devs (some dir) (own + cwdRefs cwd)) ?_ fun _ => ?_
    · refine Triple.of_ok fun t ht => ⟨(), _, rfl, ht.devs_eq, rfl, fun v => ?_⟩
      have hv := ht.refcount v
      simp only [Pi.add_apply] at hv ⊢
      change (t.refcount v : ℤ) = base v + (own v + cwdRefs cwd v) + oneRef dir v + t.kept v
      omega
    · refine Triple.bind (Q := fun _ => Owns base devs (some dir) own) ?_ fun _ =>
        Triple.pure fun t ht => ⟨dir, rfl, ht⟩
      rw [hs.cwd_eq]
      cases cwd with
      | none => exact Triple.pure fun t ht => add_zero own ▸ ht
      | some old => exact (vnodeDecref_owned hown old).weaken Runs.base

theorem vfsChdir_spec (hown : 0 ≤ own) (path : Str) :
    Triple (Runs ops base devs cwd) (Owns base devs cwd own) (vfsChdir ops path)
      (Moved base devs cwd own fun _ => True) := by
  refine (vfsLookup_spec hown path).bind fun r => ?_
  cases r with
  | error e => exact Triple.pure fun _ ht => owns_error.mp ht
  | ok vn =>
    refine (vfsSetcurdir_spec (add_nonneg hown (oneRef_nonneg vn)) vn).bind fun r => ?_
    cases r with
    | error e => exact (vnodeDecref_spec hown vn).bind fun _ => Triple.pure fun _ ht => ht
    | ok u =>
      refine Triple.bind (Q := fun _ => Owns base devs (some vn) own) ?_ fun _ =>
        Triple.pure fun t ht => ⟨vn, trivial, ht⟩
      refine ((vnodeDecref_owned hown vn).weaken Runs.base).mono ?_ fun _ _ h => h
      rintro t ⟨v, rfl, ht⟩
      exact ht

end Rules

/-! ## All the calls -/

/-- The calls that translate a path. -/
inductive VfsCall
  | lookup (path : Str)
  | lookparent (path : Str) (buflen : ℕ)
  | open (path : Str) (openflags mode : ℕ)
  | remove (path : Str)
  | rename (oldpath newpath : Str)
  | link (oldpath newpath : Str)
  | chdir (path : Str)

/-- The call succeeds in changing the current directory. -/
def VfsCall.moves (call : VfsCall) (r : Except VfsErr (Option VnodeId)) : Prop :=
  match call, r with
  | .chdir _, .ok _ => True
  | _, _ => False

/-- The call, with the vnode that it hands to its caller, if any. -/
def VfsCall.exec (ops : FsOps σ) : VfsCall → VfsM σ (Except VfsErr (Option VnodeId))
  | .lookup path => do return (← vfsLookup ops path).map some
  | .lookparent path buflen => do
    return (← vfsLookparent ops path buflen).map fun r => some r.1
  | .open path openflags mode => do return (← vfsOpen ops path openflags mode).map some
  | .remove path => do return (← vfsRemove ops path).map fun _ => none
  | .rename oldpath newpath => do return (← vfsRename ops oldpath newpath).map fun _ => none
  | .link oldpath newpath => do return (← vfsLink ops oldpath newpath).map fun _ => none
  | .chdir path => do return (← vfsChdir ops path).map fun _ => none

/-- The reference of the vnode that the call hands out. -/
def handedOpt : Except VfsErr (Option VnodeId) → VnodeId → ℤ
  | .ok (some v) => oneRef v
  | _ => 0

/-- **What a call does to the references**: it has the result's one, and moves that of the current
directory if it succeeds in changing it. -/
def VfsCall.Post (base : VnodeId → ℤ) (devs : List KnownDev) (cwd : Option VnodeId)
    (call : VfsCall) (r : Except VfsErr (Option VnodeId)) (s : VfsState σ) : Prop :=
  ∃ cwd', (cwd' = cwd ∨ call.moves r) ∧ Owns base devs cwd' (handedOpt r) s

section Calls

variable {ops : FsOps σ} {base : VnodeId → ℤ} {devs : List KnownDev} {cwd : Option VnodeId}

/-- A call that hands out a vnode, in the form of all the calls. -/
theorem VfsCall.post_of_handed {α : Type} {new : α → VnodeId} {call : VfsCall}
    {m : VfsM σ (Except VfsErr α)} (h : Triple (Runs ops base devs cwd) (Owns base devs cwd 0) m
      (fun r => Owns base devs cwd (0 + handed new r))) :
    Triple (Runs ops base devs cwd) (Owns base devs cwd 0)
      (do return (← m).map fun a => some (new a)) (call.Post base devs cwd) := by
  refine h.bind fun r => Triple.pure fun s hs => ⟨cwd, .inl rfl, ?_⟩
  rw [zero_add] at hs
  cases r with
  | error e => exact hs
  | ok a => exact hs

/-- A call that hands out nothing. -/
theorem VfsCall.post_of_owns {call : VfsCall} {m : VfsM σ (Except VfsErr Unit)}
    (h : Triple (Runs ops base devs cwd) (Owns base devs cwd 0) m
      (fun _ => Owns base devs cwd 0)) :
    Triple (Runs ops base devs cwd) (Owns base devs cwd 0)
      (do return (← m).map fun _ => none) (call.Post base devs cwd) := by
  refine h.bind fun r => Triple.pure fun s hs => ⟨cwd, .inl rfl, ?_⟩
  cases r with
  | error e => exact hs
  | ok a => exact hs

theorem VfsCall.exec_spec (ops : FsOps σ) (call : VfsCall) :
    Triple (Runs ops base devs cwd) (Owns base devs cwd 0) (call.exec ops)
      (call.Post base devs cwd) := by
  cases call with
  | lookup path => exact post_of_handed (vfsLookup_spec le_rfl path)
  | lookparent path buflen => exact post_of_handed (vfsLookparent_spec le_rfl path buflen)
  | «open» path openflags mode => exact post_of_handed (vfsOpen_spec le_rfl path openflags mode)
  | remove path => exact post_of_owns (vfsRemove_spec le_rfl path)
  | rename oldpath newpath => exact post_of_owns (vfsRename_spec le_rfl oldpath newpath)
  | link oldpath newpath => exact post_of_owns (vfsLink_spec le_rfl oldpath newpath)
  | chdir path =>
    refine (vfsChdir_spec le_rfl path).bind fun r => Triple.pure fun s hs => ?_
    cases r with
    | error e => exact ⟨cwd, .inl rfl, hs⟩
    | ok u =>
      obtain ⟨v, -, hs⟩ := hs
      exact ⟨some v, .inr trivial, hs⟩

end Calls

/-- The references of the rest of the system. -/
def VfsState.rest (s : VfsState σ) (v : VnodeId) : ℤ := s.refcount v - cwdRefs s.cwd v - s.kept v

theorem VfsState.owns_rest (s : VfsState σ) : Owns s.rest s.devs s.cwd 0 s := by
  refine ⟨rfl, rfl, fun v => ?_⟩
  unfold VfsState.rest
  rw [Pi.zero_apply]
  omega

/-- **The references balance**: after a call, whatever its result, a count has changed by the
reference handed out, by those of the old and the new current directory of a successful
`vfs_chdir`, and by the references that a failed `VOP_RECLAIM` was passed. -/
theorem VfsCall.balance {ops : FsOps σ} {call : VfsCall} {s t : VfsState σ}
    {r : Except VfsErr (Option VnodeId)} (h : call.exec ops s = .ok (r, t)) :
    (∀ v, (t.refcount v : ℤ) = s.refcount v + handedOpt r v + (cwdRefs t.cwd v - cwdRefs s.cwd v) +
      ((t.kept v : ℤ) - s.kept v)) ∧ (t.cwd = s.cwd ∨ call.moves r) := by
  obtain ⟨cwd, hcwd, hs⟩ := (call.exec_spec ops).result s.owns_rest h
  refine ⟨fun v => ?_, hs.cwd_eq ▸ hcwd⟩
  have hv := hs.refcount v
  unfold VfsState.rest at hv
  rw [hs.cwd_eq]
  omega

/-- **No `KASSERT` fails**: a call from a state whose counts include the current directory, a vnode of
a file system, and whose devices can be handed back, runs to its end. -/
theorem VfsCall.returns {ops : FsOps σ} (call : VfsCall) {s : VfsState σ}
    (hcount : ∀ v, cwdRefs s.cwd v + s.kept v ≤ s.refcount v) (hdevs : ∀ kd ∈ s.devs, kd.Valid)
    (hcwd : ∀ v, s.cwd = some v → ops.vnFs v ≠ none) : ∃ r t, call.exec ops s = .ok (r, t) := by
  have hbase : 0 ≤ s.rest := fun v => by
    have := hcount v
    change (0 : ℤ) ≤ s.refcount v - cwdRefs s.cwd v - s.kept v
    omega
  obtain ⟨r, t, h, -⟩ := (call.exec_spec ops).total ⟨hbase, hdevs, hcwd⟩ s.owns_rest
  exact ⟨r, t, h⟩

/-- A volume whose root is vnode 1 and whose files are vnode 2; `reclaims` is whether the reclaim of
the root works. -/
def smallVolume (reclaims : Bool) : FsOps Unit where
  vnFs _ := some ⟨0, none⟩
  getroot _ _ := (.ok 1, ())
  lookup _ _ _ := (.ok 2, ())
  lookparent v path _ _ := (.ok (v, path), ())
  creat _ _ _ _ _ := (.ok 2, ())
  eachopen _ _ _ := (none, ())
  truncate _ _ _ := (none, ())
  remove _ _ _ := (none, ())
  rename _ _ _ _ _ := (none, ())
  link _ _ _ _ := (none, ())
  isdir v _ := (.ok (v == 1), ())
  reclaim _ _ := (reclaims, ())
  vnFs_of_isdir _ _ _ := Option.some_ne_none _

/-- The volume is `emu0:` and no vnode of it is loaded. -/
def smallVfs : VfsState Unit where
  refcount _ := 0
  cwd := none
  bootfs := none
  devs := [⟨"emu0".toList, none, none, 0, some (.fs ⟨0, none⟩)⟩]
  kept _ := 0
  fs := ()

/-- A file is opened: it has one reference, and the root none. -/
theorem balance_open_smallVolume :
    ∃ t, (VfsCall.open "emu0:file".toList 0 0).exec (smallVolume true) smallVfs =
        .ok (.ok (some 2), t) ∧
      (∀ v, (t.refcount v : ℤ) = smallVfs.refcount v + handedOpt (.ok (some 2)) v +
        (cwdRefs t.cwd v - cwdRefs smallVfs.cwd v) + ((t.kept v : ℤ) - smallVfs.kept v)) ∧
      t.refcount 1 = 0 ∧ t.refcount 2 = 1 := by
  have h : ∃ t, (VfsCall.open "emu0:file".toList 0 0).exec (smallVolume true) smallVfs =
      .ok (.ok (some 2), t) ∧ t.refcount 1 = 0 ∧ t.refcount 2 = 1 := ⟨_, rfl, rfl, rfl⟩
  obtain ⟨t, ht, hcounts⟩ := h
  exact ⟨t, ht, (VfsCall.balance ht).1, hcounts⟩

/-- A file is removed and the reclaim of the root fails: nobody has the reference that stays. -/
theorem not_balance_failed_reclaim :
    ∃ t, (VfsCall.remove "emu0:file".toList).exec (smallVolume false) smallVfs = .ok (.ok none, t) ∧
      ¬ ∀ v, (t.refcount v : ℤ) = smallVfs.refcount v + handedOpt (.ok none) v +
        (cwdRefs t.cwd v - cwdRefs smallVfs.cwd v) := by
  refine ⟨_, rfl, fun h => ?_⟩
  have hroot := h 1
  revert hroot
  decide

end Os161
