import Mathlib.Data.List.Count
import Mathlib.Data.List.Nodup
import Mathlib.Logic.Function.Basic
import Os161.Machine.Stop
import Os161.Vfs.Devices

set_option autoImplicit false

/-!
# The life of a vnode

`vnode_incref`, `vnode_decref`, `sfs_loadvnode` and `sfs_reclaim` by any number of threads. The last
reference is not given up but passed to `sfs_reclaim`, which takes the big lock and looks at the
count again. `sfs_loadvnode` is called with the big lock.

* `VnSys`: the table of the volume, the counts, and the references of the threads; `VnSys.step`.
* `VnSys.Inv`: the counts are those of the references, and no two vnodes of the table are one inode.
* **`VnSys.lifetime`**: a vnode is freed once, and never while a thread has a reference.
-/

namespace Os161

open Transition

/-- Where a thread is: in none of the functions; in `sfs_loadvnode`, where it has found the vnode or
reads the inode; in `vnode_decref`, where it has decided on the reclaim; in `sfs_reclaim` with the
lock, before and after it has looked at the count; or before the last `kfree`. -/
inductive VnPc
  | idle
  | found (v : VnodeId)
  | reading (ino : ℕ)
  | decided (v : VnodeId)
  | locked (v : VnodeId)
  | checked (v : VnodeId)
  | removed (v : VnodeId)
  deriving DecidableEq, Repr

/-- The vnodes of a volume. `next` is the structure that `kmalloc` gives next, `sfsVnodes` the table,
`held` the references of the threads and `passed` those that `VOP_RECLAIM` was passed. `freed` counts
the calls of `kfree` for a structure. -/
structure VnSys where
  biglock : Option (ThreadId × ℕ)
  sfsVnodes : List VnodeId
  ino : VnodeId → ℕ
  refcount : VnodeId → ℕ
  freed : VnodeId → ℕ
  next : VnodeId
  held : List (ThreadId × VnodeId)
  passed : List (ThreadId × VnodeId)
  pc : ThreadId → VnPc

/-- Why a step does not happen: it is not possible, a `KASSERT` fails, or the vnode to reclaim is
not in the table. -/
inductive VnStop
  | blocked
  | kassert
  | notInPool
  deriving DecidableEq, Repr

/-- What a thread does next. -/
inductive VnAction
  | biglockAcquire (t : ThreadId)
  | biglockRelease (t : ThreadId)
  | give (t u : ThreadId) (v : VnodeId)
  | incref (t : ThreadId) (v : VnodeId)
  | decref (t : ThreadId) (v : VnodeId)
  | loadvnode (t : ThreadId) (ino : ℕ)
  | loadFound (t : ThreadId)
  | loadRead (t : ThreadId) (memory : Bool)
  | reclaim (t : ThreadId)
  | reclaimCheck (t : ThreadId)
  | reclaimRemove (t : ThreadId)
  | kfree (t : ThreadId)

namespace VnSys

/-- The volume after the mount. -/
def mounted : VnSys := ⟨none, [], fun _ => 0, fun _ => 0, fun _ => 0, 0, [], [], fun _ => .idle⟩

/-- The thread goes on at `pc`. -/
def goto (s : VnSys) (t : ThreadId) (pc : VnPc) : VnSys :=
  { s with pc := Function.update s.pc t pc }

/-- `vfs_biglock_acquire` of a mutex that works. -/
def acquire (s : VnSys) (t : ThreadId) : Except VnStop VnSys :=
  match s.biglock with
  | none => .ok { s with biglock := some (t, 1) }
  | some (h, depth) =>
    if h = t then .ok { s with biglock := some (t, depth + 1) } else .error .blocked

/-- `vfs_biglock_release`. -/
def release (s : VnSys) (t : ThreadId) : Except VnStop VnSys :=
  match s.biglock with
  | some (h, depth + 1) =>
    if h = t then .ok { s with biglock := if depth = 0 then none else some (t, depth) }
    else .error .kassert
  | _ => .error .kassert

/-- `vn->vn_refcount = n`. -/
def setCount (s : VnSys) (v : VnodeId) (n : ℕ) : VnSys :=
  { s with refcount := Function.update s.refcount v n }

/-- The thread holds the big lock. -/
def Holds (s : VnSys) (t : ThreadId) : Prop := ∃ depth, s.biglock = some (t, depth + 1)

/-- The search of `sfs_loadvnode`. -/
def search (s : VnSys) (ino : ℕ) : Option VnodeId := s.sfsVnodes.find? fun v => s.ino v == ino

/-- The thread is at `pc`, or the step is not possible. -/
def needs (p : Prop) [Decidable p] : Except VnStop Unit := if p then .ok () else .error .blocked

/-- `KASSERT`. -/
def assert (p : Prop) [Decidable p] : Except VnStop Unit := if p then .ok () else .error .kassert

/-- A new vnode in the table, with its first reference. -/
def addVnode (s : VnSys) (t : ThreadId) (ino : ℕ) : VnSys :=
  { s with
    sfsVnodes := s.sfsVnodes ++ [s.next]
    ino := Function.update s.ino s.next ino
    refcount := Function.update s.refcount s.next 1
    next := s.next + 1
    held := (t, s.next) :: s.held }

/-- One step of a thread. -/
def step (s : VnSys) : VnAction → Except VnStop VnSys
  | .biglockAcquire t => do
    needs (s.pc t = .idle)
    s.acquire t
  | .biglockRelease t => do
    needs (s.pc t = .idle ∧ s.biglock.map Prod.fst = some t)
    s.release t
  | .give t u v => do
    needs ((t, v) ∈ s.held)
    return { s with held := (u, v) :: s.held.erase (t, v) }
  | .incref t v => do
    needs (s.pc t = .idle ∧ (t, v) ∈ s.held)
    return { s.setCount v (s.refcount v + 1) with held := (t, v) :: s.held }
  | .decref t v => do
    needs (s.pc t = .idle ∧ (t, v) ∈ s.held)
    assert (0 < s.refcount v)
    if 1 < s.refcount v then
      return { s.setCount v (s.refcount v - 1) with held := s.held.erase (t, v) }
    else
      return { s.goto t (.decided v) with
        held := s.held.erase (t, v), passed := (t, v) :: s.passed }
  | .loadvnode t ino => do
    needs (s.pc t = .idle ∧ s.biglock.map Prod.fst = some t)
    match s.search ino with
    | some v => return s.goto t (.found v)
    | none => return s.goto t (.reading ino)
  | .loadFound t =>
    match s.pc t with
    | .found v =>
      .ok { (s.setCount v (s.refcount v + 1)).goto t .idle with held := (t, v) :: s.held }
    | _ => .error .blocked
  | .loadRead t memory =>
    match s.pc t with
    | .reading ino => if memory then .ok ((s.addVnode t ino).goto t .idle) else .ok (s.goto t .idle)
    | _ => .error .blocked
  | .reclaim t =>
    match s.pc t with
    | .decided v => (s.goto t (.locked v)).acquire t
    | _ => .error .blocked
  | .reclaimCheck t =>
    match s.pc t with
    | .locked v =>
      if s.refcount v ≠ 1 then do
        assert (1 < s.refcount v)
        -- The reference that `VOP_DECREF` passed is consumed.
        ({ (s.setCount v (s.refcount v - 1)).goto t .idle with
          passed := s.passed.erase (t, v) } : VnSys).release t
      else .ok (s.goto t (.checked v))
    | _ => .error .blocked
  | .reclaimRemove t =>
    match s.pc t with
    | .checked v =>
      if v ∈ s.sfsVnodes then do
        assert (s.refcount v = 1)
        ({ (s.setCount v 0).goto t (.removed v) with
          sfsVnodes := s.sfsVnodes.erase v, passed := s.passed.erase (t, v) } : VnSys).release t
      else .error .notInPool
    | _ => .error .blocked
  | .kfree t =>
    match s.pc t with
    | .removed v =>
      .ok { s.goto t .idle with freed := Function.update s.freed v (s.freed v + 1) }
    | _ => .error .blocked

/-- The number of references to the vnode. -/
def refsTo (refs : List (ThreadId × VnodeId)) (v : VnodeId) : ℕ :=
  refs.countP fun r => r.2 = v

/-- The thread has the reference of the vnode that `VOP_RECLAIM` was passed. -/
def reclaims : VnPc → Option VnodeId
  | .decided v | .locked v | .checked v => some v
  | _ => none

/-- What holds where a thread is. -/
def PcOk (s : VnSys) (t : ThreadId) : VnPc → Prop
  | .idle => True
  | .found v => s.Holds t ∧ v ∈ s.sfsVnodes
  | .reading ino => s.Holds t ∧ ∀ v ∈ s.sfsVnodes, s.ino v ≠ ino
  | .decided v => (t, v) ∈ s.passed
  | .locked v => s.Holds t ∧ (t, v) ∈ s.passed
  | .checked v => s.Holds t ∧ (t, v) ∈ s.passed ∧ s.refcount v = 1
  | .removed v => v ∉ s.sfsVnodes ∧ v < s.next ∧ s.freed v = 0 ∧ ∀ u, s.pc u = .removed v → u = t

/-- **The invariant.** -/
structure Inv (s : VnSys) : Prop where
  refcount : ∀ v ∈ s.sfsVnodes, s.refcount v = refsTo s.held v + refsTo s.passed v
  positive : ∀ v ∈ s.sfsVnodes, 0 < s.refcount v
  held : ∀ r ∈ s.held, r.2 ∈ s.sfsVnodes
  passed : ∀ r ∈ s.passed, r.2 ∈ s.sfsVnodes ∧ reclaims (s.pc r.1) = some r.2
  passed_nodup : s.passed.Nodup
  nodup : (s.sfsVnodes.map s.ino).Nodup
  pc : ∀ t, s.PcOk t (s.pc t)
  depth : ∀ t depth, s.biglock = some (t, depth) → 0 < depth
  made : ∀ v ∈ s.sfsVnodes, v < s.next
  unfreed : ∀ v, v ∈ s.sfsVnodes ∨ s.next ≤ v → s.freed v = 0
  once : ∀ v < s.next, v ∉ s.sfsVnodes → s.freed v = 1 ∨ ∃ t, s.pc t = .removed v

end VnSys

section Refs

variable {refs : List (ThreadId × VnodeId)} {t : ThreadId} {v w : VnodeId}

namespace VnSys

theorem refsTo_cons :
    refsTo ((t, v) :: refs) w = refsTo refs w + if v = w then 1 else 0 := by
  unfold refsTo
  rw [List.countP_cons]
  simp only [decide_eq_true_eq]

theorem refsTo_erase (h : (t, v) ∈ refs) :
    refsTo refs w = refsTo (refs.erase (t, v)) w + if v = w then 1 else 0 := by
  rw [← refsTo_cons (t := t)]
  exact (List.perm_cons_erase h).countP_eq _

theorem refsTo_pos (h : (t, v) ∈ refs) : 0 < refsTo refs v := by
  rw [refsTo_erase h, if_pos rfl]
  omega

theorem refsTo_eq_zero (h : ∀ r ∈ refs, r.2 ≠ v) : refsTo refs v = 0 := by
  unfold refsTo
  rw [List.countP_eq_zero]
  exact fun r hr => by simpa using h r hr

end VnSys

end Refs

namespace VnSys

section Frame

variable {s s' : VnSys} {t u : ThreadId} {v w : VnodeId} {pc : VnPc} {ino : ℕ}

theorem Holds.unique (ht : s.Holds t) (hu : s.Holds u) : u = t := by
  obtain ⟨d, hd⟩ := ht
  obtain ⟨e, he⟩ := hu
  rw [hd] at he
  cases he
  rfl

/-- What another thread knows stays so. -/
theorem PcOk.frame (h : s.PcOk u pc)
    (hlock : s.Holds u → s'.Holds u ∧ s'.sfsVnodes = s.sfsVnodes ∧ s'.ino = s.ino)
    (hcount : ∀ v, pc = .checked v → s'.refcount v = s.refcount v)
    (hpassed : ∀ v, (u, v) ∈ s.passed → (u, v) ∈ s'.passed)
    (hremoved : ∀ v, pc = .removed v → v ∉ s.sfsVnodes → v < s.next →
      v ∉ s'.sfsVnodes ∧ v < s'.next ∧ s'.freed v = s.freed v ∧
        ∀ w, s'.pc w = .removed v → s.pc w = .removed v ∨ w = u) : s'.PcOk u pc := by
  cases pc with
  | idle => trivial
  | found v =>
    obtain ⟨hh, hv⟩ := h
    obtain ⟨hh', htab, -⟩ := hlock hh
    exact ⟨hh', htab ▸ hv⟩
  | reading ino =>
    obtain ⟨hh, hv⟩ := h
    obtain ⟨hh', htab, hino⟩ := hlock hh
    refine ⟨hh', ?_⟩
    rw [htab, hino]
    exact hv
  | decided v => exact hpassed v h
  | locked v => exact ⟨(hlock h.1).1, hpassed v h.2⟩
  | checked v =>
    obtain ⟨hh, hp, hc⟩ := h
    exact ⟨(hlock hh).1, hpassed v hp, (hcount v rfl).trans hc⟩
  | removed v =>
    obtain ⟨hv, hn, hf, hone⟩ := h
    obtain ⟨hv', hn', hf', hone'⟩ := hremoved v rfl hv hn
    exact ⟨hv', hn', hf'.trans hf, fun w hw => (hone' w hw).elim (hone w) id⟩

/-- **A thread goes on**, and nothing else changes. -/
theorem Inv.goto (h : s.Inv) (hnew : (s.goto t pc).PcOk t pc)
    (hreclaims : reclaims pc = reclaims (s.pc t)) (hold : ∀ v, s.pc t ≠ .removed v)
    (hpc : ∀ v, pc ≠ .removed v) : (s.goto t pc).Inv := by
  have hself : (s.goto t pc).pc t = pc := Function.update_self ..
  have hother : ∀ u ≠ t, (s.goto t pc).pc u = s.pc u := fun u hu => Function.update_of_ne hu ..
  refine { h with passed := fun r hr => ?_, pc := fun u => ?_, once := fun v hv hn => ?_ }
  · obtain ⟨hv, hrec⟩ := h.passed r hr
    refine ⟨hv, ?_⟩
    by_cases he : r.1 = t
    · rw [he, hself, hreclaims, ← he]
      exact hrec
    · rw [hother r.1 he]
      exact hrec
  · by_cases he : u = t
    · rw [he, hself]
      exact hnew
    · rw [hother u he]
      refine (h.pc u).frame (fun hh => ⟨hh, rfl, rfl⟩) (fun _ _ => rfl) (fun _ hp => hp)
        fun v _ hv hn => ⟨hv, hn, rfl, fun w hw => .inl ?_⟩
      by_cases hw' : w = t
      · rw [hw', hself] at hw
        exact absurd hw (hpc v)
      · rw [hother w hw'] at hw
        exact hw
  · refine (h.once v hv hn).imp id fun ⟨u, hu⟩ => ⟨u, ?_⟩
    rw [hother u fun he => hold v (he ▸ hu)]
    exact hu

/-- **The lock is taken or given back** by a thread that needs it nowhere. -/
theorem Inv.relock (h : s.Inv) {b : Option (ThreadId × ℕ)} (hfree : ∀ u ≠ t, ¬ s.Holds u)
    (hself : ({ s with biglock := b } : VnSys).PcOk t (s.pc t))
    (hb : ∀ u depth, b = some (u, depth) → 0 < depth) : ({ s with biglock := b } : VnSys).Inv := by
  refine { h with pc := fun u => ?_, depth := hb }
  by_cases he : u = t
  · subst he
    exact hself
  · exact (h.pc u).frame (fun hh => absurd hh (hfree u he)) (fun _ _ => rfl) (fun _ hp => hp)
      fun v _ hv hn => ⟨hv, hn, rfl, fun w hw => .inl hw⟩

/-- **A new reference** to a vnode in the table that is not being reclaimed. -/
theorem Inv.addRef (h : s.Inv) (hv : v ∈ s.sfsVnodes) (hchecked : ∀ u, s.pc u ≠ .checked v) :
    ({ s.setCount v (s.refcount v + 1) with held := (t, v) :: s.held } : VnSys).Inv := by
  refine { h with
    refcount := fun w hw => ?_, positive := fun w hw => ?_, held := fun r hr => ?_,
    pc := fun u => ?_ }
  · have hcount := h.refcount w hw
    change Function.update s.refcount v _ w = refsTo ((t, v) :: s.held) w + refsTo s.passed w
    rw [refsTo_cons]
    by_cases he : w = v
    · subst he
      rw [Function.update_self, if_pos rfl]
      omega
    · rw [Function.update_of_ne he, if_neg (Ne.symm he)]
      omega
  · change 0 < Function.update s.refcount v _ w
    by_cases he : w = v
    · rw [he, Function.update_self]
      omega
    · rw [Function.update_of_ne he]
      exact h.positive w hw
  · rcases List.mem_cons.mp hr with rfl | hr
    · exact hv
    · exact h.held r hr
  · refine (h.pc u).frame (fun hh => ⟨hh, rfl, rfl⟩) (fun w hw => ?_) (fun _ hp => hp)
      fun v _ hv hn => ⟨hv, hn, rfl, fun w hw => .inl hw⟩
    refine Function.update_of_ne (fun he => ?_) ..
    rw [he] at hw
    exact hchecked u hw

/-- **A reference is dropped** that is not the last one. -/
theorem Inv.dropRef (h : s.Inv) (hheld : (t, v) ∈ s.held) (hmany : 1 < s.refcount v) :
    ({ s.setCount v (s.refcount v - 1) with held := s.held.erase (t, v) } : VnSys).Inv := by
  refine { h with
    refcount := fun w hw => ?_, positive := fun w hw => ?_,
    held := fun r hr => h.held r (List.mem_of_mem_erase hr), pc := fun u => ?_ }
  · have hcount := h.refcount w hw
    rw [refsTo_erase hheld] at hcount
    change Function.update s.refcount v _ w = refsTo (s.held.erase (t, v)) w + refsTo s.passed w
    by_cases he : w = v
    · subst he
      rw [if_pos rfl] at hcount
      rw [Function.update_self]
      omega
    · rw [if_neg (Ne.symm he)] at hcount
      rw [Function.update_of_ne he]
      exact hcount
  · change 0 < Function.update s.refcount v _ w
    by_cases he : w = v
    · rw [he, Function.update_self]
      omega
    · rw [Function.update_of_ne he]
      exact h.positive w hw
  · refine (h.pc u).frame (fun hh => ⟨hh, rfl, rfl⟩) (fun w hw => ?_) (fun _ hp => hp)
      fun v _ hv hn => ⟨hv, hn, rfl, fun w hw => .inl hw⟩
    refine Function.update_of_ne (fun he => ?_) ..
    -- A vnode with more than one reference is not past the check.
    have hpc := h.pc u
    rw [hw, he] at hpc
    have := hpc.2.2
    omega

/-- **A reference is handed** from one thread to another. -/
theorem Inv.give (h : s.Inv) (hheld : (t, v) ∈ s.held) :
    ({ s with held := (u, v) :: s.held.erase (t, v) } : VnSys).Inv := by
  refine { h with refcount := fun w hw => ?_, held := fun r hr => ?_, pc := fun w => ?_ }
  · rw [h.refcount w hw, refsTo_cons, ← refsTo_erase hheld]
  · rcases List.mem_cons.mp hr with rfl | hr
    · exact h.held (t, v) hheld
    · exact h.held r (List.mem_of_mem_erase hr)
  · exact (h.pc w).frame (fun hh => ⟨hh, rfl, rfl⟩) (fun _ _ => rfl) (fun _ hp => hp)
      fun v _ hv hn => ⟨hv, hn, rfl, fun w hw => .inl hw⟩

/-- **The last reference is passed** to `VOP_RECLAIM`. -/
theorem Inv.pass (h : s.Inv) (hpc : s.pc t = .idle) (hheld : (t, v) ∈ s.held) :
    ({ s.goto t (.decided v) with
      held := s.held.erase (t, v), passed := (t, v) :: s.passed } : VnSys).Inv := by
  have hself : (s.goto t (.decided v)).pc t = .decided v := Function.update_self ..
  have hother : ∀ u ≠ t, (s.goto t (.decided v)).pc u = s.pc u :=
    fun u hu => Function.update_of_ne hu ..
  -- An idle thread has passed no reference on.
  have hnot : ∀ r ∈ s.passed, r.1 ≠ t := by
    intro r hr he
    have := (h.passed r hr).2
    rw [he, hpc] at this
    cases this
  refine { h with
    refcount := fun w hw => ?_, held := fun r hr => h.held r (List.mem_of_mem_erase hr),
    passed := fun r hr => ?_, passed_nodup := ?_, pc := fun u => ?_, once := fun w hw hn => ?_ }
  · have hcount := h.refcount w hw
    rw [refsTo_erase hheld] at hcount
    change s.refcount w = refsTo (s.held.erase (t, v)) w + refsTo ((t, v) :: s.passed) w
    rw [refsTo_cons]
    omega
  · rcases List.mem_cons.mp hr with rfl | hr
    · exact ⟨h.held (t, v) hheld, by rw [hself]; rfl⟩
    · exact ⟨(h.passed r hr).1, by rw [hother r.1 (hnot r hr)]; exact (h.passed r hr).2⟩
  · exact List.nodup_cons.mpr ⟨fun hm => hnot (t, v) hm rfl, h.passed_nodup⟩
  · by_cases he : u = t
    · rw [he]
      change PcOk _ t ((s.goto t (.decided v)).pc t)
      rw [hself]
      exact List.mem_cons_self
    · change PcOk _ u ((s.goto t (.decided v)).pc u)
      rw [hother u he]
      refine (h.pc u).frame (fun hh => ⟨hh, rfl, rfl⟩) (fun _ _ => rfl)
        (fun w hw => List.mem_cons_of_mem _ hw) fun w _ hw hn => ⟨hw, hn, rfl, fun x hx => .inl ?_⟩
      have hx : (s.goto t (.decided v)).pc x = .removed w := hx
      by_cases hxt : x = t
      · rw [hxt, hself] at hx
        cases hx
      · rw [hother x hxt] at hx
        exact hx
  · refine (h.once w hw hn).imp id fun ⟨u, hu⟩ => ⟨u, ?_⟩
    have hut : u ≠ t := by
      rintro rfl
      rw [hpc] at hu
      cases hu
    exact (hother u hut).trans hu

/-- **A vnode is loaded** by the thread that has the lock. -/
theorem Inv.addVnode (h : s.Inv) (hpc : s.pc t = .idle) (hlock : s.Holds t)
    (hino : ∀ v ∈ s.sfsVnodes, s.ino v ≠ ino) : (s.addVnode t ino).Inv := by
  have hnew : ∀ v ∈ s.sfsVnodes, v ≠ s.next := fun v hv => Nat.ne_of_lt (h.made v hv)
  have hmem : ∀ v, v ∈ (s.addVnode t ino).sfsVnodes ↔ v ∈ s.sfsVnodes ∨ v = s.next := fun v => by
    change v ∈ s.sfsVnodes ++ [s.next] ↔ _
    rw [List.mem_append, List.mem_singleton]
  have hcount : ∀ v ∈ s.sfsVnodes, (s.addVnode t ino).refcount v = s.refcount v :=
    fun v hv => Function.update_of_ne (hnew v hv) ..
  have hnone : ∀ r, r ∈ s.held ∨ r ∈ s.passed → r.2 ≠ s.next := by
    rintro r (hr | hr)
    · exact hnew r.2 (h.held r hr)
    · exact hnew r.2 (h.passed r hr).1
  refine ⟨fun v hv => ?_, fun v hv => ?_, fun r hr => ?_, fun r hr => ?_, h.passed_nodup, ?_,
    fun u => ?_, h.depth, fun v hv => ?_, fun v hv => ?_, fun v hv hn => ?_⟩
  · change _ = refsTo ((t, s.next) :: s.held) v + refsTo s.passed v
    rw [refsTo_cons]
    rcases (hmem v).mp hv with hv | rfl
    · rw [hcount v hv, if_neg (hnew v hv).symm]
      exact h.refcount v hv
    · rw [refsTo_eq_zero fun r hr => hnone r (.inl hr),
        refsTo_eq_zero fun r hr => hnone r (.inr hr), if_pos rfl]
      exact Function.update_self ..
  · rcases (hmem v).mp hv with hv | rfl
    · rw [hcount v hv]
      exact h.positive v hv
    · change 0 < Function.update s.refcount s.next 1 s.next
      rw [Function.update_self]
      exact Nat.zero_lt_one
  · rcases List.mem_cons.mp hr with rfl | hr
    · exact (hmem _).mpr (.inr rfl)
    · exact (hmem _).mpr (.inl (h.held r hr))
  · exact ⟨(hmem _).mpr (.inl (h.passed r hr).1), (h.passed r hr).2⟩
  · change ((s.sfsVnodes ++ [s.next]).map (Function.update s.ino s.next ino)).Nodup
    have hmap : s.sfsVnodes.map (Function.update s.ino s.next ino) = s.sfsVnodes.map s.ino :=
      List.map_congr_left fun v hv => Function.update_of_ne (hnew v hv) ..
    rw [List.map_append, hmap, List.map_singleton, Function.update_self]
    refine List.nodup_append.mpr ⟨h.nodup, List.nodup_singleton _, fun a ha b hb => ?_⟩
    obtain ⟨v, hv, rfl⟩ := List.mem_map.mp ha
    rw [List.mem_singleton.mp hb]
    exact hino v hv
  · by_cases he : u = t
    · rw [he]
      change PcOk _ t (s.pc t)
      rw [hpc]
      trivial
    · refine (h.pc u).frame (fun hh => absurd (hlock.unique hh) he) (fun v hv => ?_)
        (fun _ hp => hp)
        fun v _ hv hn => ⟨fun hv' => ?_, Nat.lt_succ_of_lt hn, rfl, fun w hw => .inl hw⟩
      · have hv' := h.pc u
        rw [hv] at hv'
        exact hcount v (h.passed (u, v) hv'.2.1).1
      · rcases (hmem v).mp hv' with hv' | rfl
        · exact hv hv'
        · exact Nat.lt_irrefl _ hn
  · rcases (hmem v).mp hv with hv | rfl
    · exact Nat.lt_succ_of_lt (h.made v hv)
    · exact Nat.lt_succ_self _
  · refine h.unfreed v ?_
    rcases hv with hv | hv
    · exact ((hmem v).mp hv).imp id fun he => Nat.le_of_eq he.symm
    · exact .inr (Nat.le_of_succ_le hv)
  · have hne : v ≠ s.next := fun he => hn ((hmem v).mpr (.inr he))
    have hlt : v < s.next := Nat.lt_of_le_of_ne (Nat.le_of_lt_succ hv) hne
    exact h.once v hlt fun hv' => hn ((hmem v).mpr (.inl hv'))

/-- The references that other threads have passed on stay when `t` gives up its one. -/
theorem Inv.mem_passed_erase (h : s.Inv) (hrec : reclaims (s.pc t) = some v)
    {r : ThreadId × VnodeId} : r ∈ s.passed.erase (t, v) ↔ r ∈ s.passed ∧ r.1 ≠ t := by
  rw [h.passed_nodup.mem_erase_iff]
  constructor
  · rintro ⟨hne, hr⟩
    refine ⟨hr, fun he => hne ?_⟩
    have hv := (h.passed r hr).2
    rw [he, hrec] at hv
    exact Prod.ext he (Option.some.inj hv).symm
  · rintro ⟨hr, hne⟩
    exact ⟨fun he => hne (congrArg Prod.fst he), hr⟩

/-- **A reclaim is called off**: the count is not 1, and the reference is consumed. -/
theorem Inv.consume (h : s.Inv) (hpc : s.pc t = .locked v) (hone : s.refcount v ≠ 1) :
    ({ (s.setCount v (s.refcount v - 1)).goto t .idle with
      passed := s.passed.erase (t, v) } : VnSys).Inv := by
  have hmine := h.pc t
  rw [hpc] at hmine
  obtain ⟨-, hpassed⟩ := hmine
  have hrec : reclaims (s.pc t) = some v := by rw [hpc]; rfl
  have hpos := h.positive v (h.passed (t, v) hpassed).1
  have hother : ∀ u ≠ t, Function.update s.pc t .idle u = s.pc u :=
    fun u hu => Function.update_of_ne hu ..
  refine { h with
    refcount := fun w hw => ?_, positive := fun w hw => ?_, passed := fun r hr => ?_,
    passed_nodup := h.passed_nodup.erase _, pc := fun u => ?_, once := fun w hw hn => ?_ }
  · have hcount := h.refcount w hw
    rw [refsTo_erase hpassed] at hcount
    change Function.update s.refcount v _ w = refsTo s.held w + refsTo (s.passed.erase (t, v)) w
    by_cases he : w = v
    · subst he
      rw [if_pos rfl] at hcount
      rw [Function.update_self]
      omega
    · rw [if_neg (Ne.symm he)] at hcount
      rw [Function.update_of_ne he]
      exact hcount
  · change 0 < Function.update s.refcount v _ w
    by_cases he : w = v
    · rw [he, Function.update_self]
      omega
    · rw [Function.update_of_ne he]
      exact h.positive w hw
  · obtain ⟨hr, hne⟩ := (h.mem_passed_erase hrec).mp hr
    exact ⟨(h.passed r hr).1, (congrArg reclaims (hother r.1 hne)).trans (h.passed r hr).2⟩
  · change PcOk _ u (Function.update s.pc t .idle u)
    by_cases he : u = t
    · rw [he, Function.update_self]
      trivial
    · rw [hother u he]
      refine (h.pc u).frame (fun hh => ⟨hh, rfl, rfl⟩) (fun w hw => ?_)
        (fun w hw => (h.mem_passed_erase hrec).mpr ⟨hw, he⟩)
        fun w _ hw hn => ⟨hw, hn, rfl, fun x hx => .inl ?_⟩
      · refine Function.update_of_ne (fun hwv => hone ?_) ..
        have hu := h.pc u
        rw [hw, hwv] at hu
        exact hu.2.2
      · have hx : Function.update s.pc t .idle x = .removed w := hx
        by_cases hxt : x = t
        · rw [hxt, Function.update_self] at hx
          cases hx
        · rw [hother x hxt] at hx
          exact hx
  · refine (h.once w hw hn).imp id fun ⟨u, hu⟩ => ⟨u, (hother u fun he => ?_).trans hu⟩
    rw [he, hpc] at hu
    cases hu

/-- **A vnode is taken out of the table.** -/
theorem Inv.remove (h : s.Inv) (hpc : s.pc t = .checked v) :
    ({ (s.setCount v 0).goto t (.removed v) with
      sfsVnodes := s.sfsVnodes.erase v, passed := s.passed.erase (t, v) } : VnSys).Inv := by
  have hmine := h.pc t
  rw [hpc] at hmine
  obtain ⟨hlock, hpassed, hone⟩ := hmine
  have hrec : reclaims (s.pc t) = some v := by rw [hpc]; rfl
  have hv := (h.passed (t, v) hpassed).1
  have hmem : ∀ w, w ∈ s.sfsVnodes.erase v ↔ w ≠ v ∧ w ∈ s.sfsVnodes :=
    fun w => h.nodup.of_map.mem_erase_iff
  have hself : Function.update s.pc t (.removed v) t = .removed v := Function.update_self ..
  have hother : ∀ u ≠ t, Function.update s.pc t (.removed v) u = s.pc u :=
    fun u hu => Function.update_of_ne hu ..
  -- The one reference is the one that was passed.
  have hcount := h.refcount v hv
  rw [refsTo_erase hpassed, if_pos rfl, hone] at hcount
  have hheld : ∀ r ∈ s.held, r.2 ≠ v := fun r hr he => by
    have := refsTo_pos (show (r.1, v) ∈ s.held from he ▸ hr)
    omega
  have hrest : ∀ r ∈ s.passed.erase (t, v), r.2 ≠ v := fun r hr he => by
    have := refsTo_pos (show (r.1, v) ∈ s.passed.erase (t, v) from he ▸ hr)
    omega
  refine { h with
    refcount := fun w hw => ?_, positive := fun w hw => ?_,
    held := fun r hr => (hmem _).mpr ⟨hheld r hr, h.held r hr⟩, passed := fun r hr => ?_,
    passed_nodup := h.passed_nodup.erase _,
    nodup := h.nodup.sublist (List.erase_sublist.map s.ino), pc := fun u => ?_,
    made := fun w hw => h.made w ((hmem w).mp hw).2,
    unfreed := fun w hw => h.unfreed w (hw.imp (fun hw => ((hmem w).mp hw).2) id),
    once := fun w hw hn => ?_ }
  · obtain ⟨hne, hw⟩ := (hmem w).mp hw
    have hcount := h.refcount w hw
    rw [refsTo_erase hpassed, if_neg (Ne.symm hne)] at hcount
    exact (Function.update_of_ne hne ..).trans hcount
  · obtain ⟨hne, hw⟩ := (hmem w).mp hw
    change 0 < Function.update s.refcount v 0 w
    rw [Function.update_of_ne hne]
    exact h.positive w hw
  · obtain ⟨hr', hne⟩ := (h.mem_passed_erase hrec).mp hr
    exact ⟨(hmem _).mpr ⟨hrest r hr, (h.passed r hr').1⟩,
      (congrArg reclaims (hother r.1 hne)).trans (h.passed r hr').2⟩
  · change PcOk _ u (Function.update s.pc t (.removed v) u)
    have hgone : ∀ x w, Function.update s.pc t (.removed v) x = .removed w → w ∉ s.sfsVnodes →
        s.pc x = .removed w := by
      intro x w hx hw
      by_cases hxt : x = t
      · rw [hxt, hself] at hx
        cases hx
        exact absurd hv hw
      · rw [hother x hxt] at hx
        exact hx
    by_cases he : u = t
    · rw [he, hself]
      refine ⟨fun hw => ((hmem v).mp hw).1 rfl, h.made v hv, h.unfreed v (.inl hv), fun x hx => ?_⟩
      by_contra hxt
      have hx : s.pc x = .removed v := (hother x hxt).symm.trans hx
      have hxv := h.pc x
      rw [hx] at hxv
      exact hxv.1 hv
    · rw [hother u he]
      refine (h.pc u).frame (fun hh => absurd (hlock.unique hh) he) (fun w hw => ?_)
        (fun w hw => (h.mem_passed_erase hrec).mpr ⟨hw, he⟩)
        fun w _ hw hn => ⟨fun hw' => hw ((hmem w).mp hw').2, hn, rfl, fun x hx => .inl (hgone x w hx hw)⟩
      have hu := h.pc u
      rw [hw] at hu
      exact absurd (hlock.unique hu.1) he
  · by_cases he : w = v
    · exact .inr ⟨t, he ▸ hself⟩
    · refine (h.once w hw fun hw' => hn ((hmem w).mpr ⟨he, hw'⟩)).imp id
        fun ⟨u, hu⟩ => ⟨u, (hother u fun hut => ?_).trans hu⟩
      rw [hut, hpc] at hu
      cases hu

/-- **The structure is freed.** -/
theorem Inv.kfree (h : s.Inv) (hpc : s.pc t = .removed v) :
    ({ s.goto t .idle with freed := Function.update s.freed v (s.freed v + 1) } : VnSys).Inv := by
  have hmine := h.pc t
  rw [hpc] at hmine
  obtain ⟨hv, hnext, hfreed, hunique⟩ := hmine
  have hother : ∀ u ≠ t, Function.update s.pc t .idle u = s.pc u :=
    fun u hu => Function.update_of_ne hu ..
  refine { h with
    passed := fun r hr => ?_, pc := fun u => ?_, unfreed := fun w hw => ?_,
    once := fun w hw hn => ?_ }
  · refine ⟨(h.passed r hr).1, (congrArg reclaims (hother r.1 fun he => ?_)).trans (h.passed r hr).2⟩
    have := (h.passed r hr).2
    rw [he, hpc] at this
    cases this
  · change PcOk _ u (Function.update s.pc t .idle u)
    by_cases he : u = t
    · rw [he, Function.update_self]
      trivial
    · rw [hother u he]
      refine (h.pc u).frame (fun hh => ⟨hh, rfl, rfl⟩) (fun _ _ => rfl) (fun _ hw => hw)
        fun w hu hw hn => ⟨hw, hn, Function.update_of_ne (fun hwv => ?_) .., fun x hx => .inl ?_⟩
      · rw [hwv] at hu
        exact he (hunique u hu)
      · have hx : Function.update s.pc t .idle x = .removed w := hx
        by_cases hxt : x = t
        · rw [hxt, Function.update_self] at hx
          cases hx
        · rw [hother x hxt] at hx
          exact hx
  · refine (Function.update_of_ne (fun hwv => ?_) ..).trans (h.unfreed w hw)
    rcases hw with hw | hw
    · exact hv (hwv ▸ hw)
    · exact absurd hnext (Nat.not_lt.mpr (hwv ▸ hw))
  · by_cases he : w = v
    · refine .inl ?_
      change Function.update s.freed v (s.freed v + 1) w = 1
      rw [he, Function.update_self, hfreed]
    · refine (h.once w hw hn).imp (fun hf => (Function.update_of_ne he ..).trans hf)
        fun ⟨u, hu⟩ => ⟨u, (hother u fun hut => ?_).trans hu⟩
      rw [hut, hpc] at hu
      cases hu
      exact he rfl

/-! ## Every step -/

/-- No `KASSERT` fails and no vnode is missing, and the invariant holds where the step leads. -/
def Fine : Except VnStop VnSys → Prop
  | .ok s => s.Inv
  | .error .blocked => True
  | .error _ => False

theorem Fine.needs {p : Prop} [Decidable p] {f : Unit → Except VnStop VnSys} (h : p → Fine (f ())) :
    Fine (needs p >>= f) := by
  unfold VnSys.needs
  split_ifs with hp
  · exact h hp
  · trivial

theorem Fine.assert {p : Prop} [Decidable p] {f : Unit → Except VnStop VnSys} (hp : p)
    (h : Fine (f ())) : Fine (assert p >>= f) := by
  unfold VnSys.assert
  rw [if_pos hp]
  exact h

theorem holds_of_map (h : s.Inv) (hlock : s.biglock.map Prod.fst = some t) : s.Holds t := by
  cases hb : s.biglock with
  | none => rw [hb] at hlock; cases hlock
  | some l =>
    obtain ⟨u, depth⟩ := l
    rw [hb] at hlock
    cases hlock
    have := h.depth u depth hb
    exact ⟨depth - 1, by rw [hb, Nat.sub_add_cancel this]⟩

/-- The lock is taken by a thread that then is at `pc`. -/
theorem fine_acquire {f : VnSys → VnSys}
    (hf : ∀ b, f { s with biglock := b } = { f s with biglock := b })
    (hb : ∀ depth, (∀ u ≠ t, ¬ s.Holds u) →
      (f { s with biglock := some (t, depth + 1) }).Inv) (hlock : (f s).biglock = s.biglock) :
    Fine ((f s).acquire t) := by
  unfold VnSys.acquire
  rw [hlock]
  cases hs : s.biglock with
  | none =>
    change (({ f s with biglock := some (t, 0 + 1) } : VnSys)).Inv
    rw [← hf]
    refine hb 0 fun u _ hu => ?_
    obtain ⟨depth, hu⟩ := hu
    rw [hs] at hu
    cases hu
  | some l =>
    obtain ⟨u, depth⟩ := l
    dsimp only
    by_cases hu : u = t
    · subst hu
      rw [if_pos rfl]
      change (({ f s with biglock := some (u, depth + 1) } : VnSys)).Inv
      rw [← hf]
      refine hb depth fun w hw hh => ?_
      obtain ⟨d, hd⟩ := hh
      rw [hs] at hd
      cases hd
      exact hw rfl
    · rw [if_neg hu]
      trivial

/-- The lock is given back by a thread that needs it no longer. -/
theorem Inv.release (h : s.Inv) (hlock : s.Holds t)
    (hself : ∀ b, ({ s with biglock := b } : VnSys).PcOk t (s.pc t)) : Fine (s.release t) := by
  have hfree : ∀ u ≠ t, ¬ s.Holds u := fun u hu hh => hu (hlock.unique hh)
  obtain ⟨depth, hb⟩ := hlock
  unfold VnSys.release
  rw [hb]
  dsimp only
  rw [if_pos rfl]
  refine h.relock hfree (hself _) fun u d hd => ?_
  split_ifs at hd with hzero
  cases hd
  exact Nat.pos_of_ne_zero hzero

/-- What the search of `sfs_loadvnode` finds. -/
theorem search_eq_some (hs : s.search ino = some v) : v ∈ s.sfsVnodes :=
  List.mem_of_find?_eq_some hs

theorem search_eq_none (hs : s.search ino = none) : ∀ v ∈ s.sfsVnodes, s.ino v ≠ ino := by
  intro v hv
  have := List.find?_eq_none.mp hs v hv
  simpa using this

/-- **Every step keeps the invariant**, and none panics. -/
theorem Inv.step (h : s.Inv) (a : VnAction) : Fine (s.step a) := by
  cases a with
  | biglockAcquire t =>
    refine Fine.needs fun hpc => fine_acquire (f := id) (fun _ => rfl) (fun depth hfree => ?_) rfl
    refine h.relock hfree (by rw [hpc]; trivial) fun u d hd => ?_
    cases hd
    exact Nat.succ_pos _
  | biglockRelease t =>
    refine Fine.needs fun hpc => h.release (holds_of_map h hpc.2) fun b => ?_
    rw [hpc.1]
    trivial
  | give t u v => exact Fine.needs fun hheld => h.give hheld
  | incref t v =>
    refine Fine.needs fun hpc => h.addRef (h.held _ hpc.2) fun u hu => ?_
    -- The count of a vnode past the check is the one reference that was passed.
    have hmine := h.pc u
    rw [hu] at hmine
    have hcount := h.refcount v (h.held _ hpc.2)
    have h₁ := refsTo_pos hpc.2
    have h₂ := refsTo_pos hmine.2.1
    have h₃ := hmine.2.2
    omega
  | decref t v =>
    refine Fine.needs fun hpc => Fine.assert (h.positive v (h.held _ hpc.2)) ?_
    by_cases hmany : 1 < s.refcount v
    · rw [if_pos hmany]
      exact h.dropRef hpc.2 hmany
    · rw [if_neg hmany]
      exact h.pass hpc.1 hpc.2
  | loadvnode t ino =>
    refine Fine.needs fun hpc => ?_
    have hlock := holds_of_map h hpc.2
    cases hs : s.search ino with
    | some v =>
      exact h.goto ⟨hlock, search_eq_some hs⟩ (by rw [hpc.1]; rfl) (by rw [hpc.1]; nofun) nofun
    | none =>
      exact h.goto ⟨hlock, search_eq_none hs⟩ (by rw [hpc.1]; rfl) (by rw [hpc.1]; nofun) nofun
  | loadFound t =>
    change Fine (match s.pc t with | .found v => _ | _ => _)
    cases hpc : s.pc t with
    | found v =>
      have hmine := h.pc t
      rw [hpc] at hmine
      have hidle : (s.goto t .idle).Inv :=
        h.goto trivial (by rw [hpc]; rfl) (by rw [hpc]; nofun) nofun
      refine Inv.addRef (s := s.goto t .idle) hidle hmine.2 fun u hu => ?_
      -- A thread past the check has the lock, which this one has.
      by_cases he : u = t
      · rw [he] at hu
        exact absurd ((Function.update_self ..).symm.trans hu) nofun
      · have hu : s.pc u = .checked v := (Function.update_of_ne he ..).symm.trans hu
        have hother := h.pc u
        rw [hu] at hother
        exact he (hmine.1.unique hother.1)
    | _ => trivial
  | loadRead t memory =>
    change Fine (match s.pc t with | .reading ino => _ | _ => _)
    cases hpc : s.pc t with
    | reading ino =>
      have hmine := h.pc t
      rw [hpc] at hmine
      have hidle : (s.goto t .idle).Inv :=
        h.goto trivial (by rw [hpc]; rfl) (by rw [hpc]; nofun) nofun
      cases memory with
      | true => exact hidle.addVnode (Function.update_self ..) hmine.1 hmine.2
      | false => exact hidle
    | _ => trivial
  | reclaim t =>
    change Fine (match s.pc t with | .decided v => _ | _ => _)
    cases hpc : s.pc t with
    | decided v =>
      have hmine := h.pc t
      rw [hpc] at hmine
      refine fine_acquire (f := fun s => s.goto t (.locked v)) (fun _ => rfl) (fun depth hfree => ?_) rfl
      have hlocked : ({ s with biglock := some (t, depth + 1) } : VnSys).Inv := by
        refine h.relock hfree (by rw [hpc]; exact hmine) fun u d hd => ?_
        cases hd
        exact Nat.succ_pos _
      exact hlocked.goto ⟨⟨depth, rfl⟩, hmine⟩ (by rw [hpc]; rfl) (by rw [hpc]; nofun) nofun
    | _ => trivial
  | reclaimCheck t =>
    change Fine (match s.pc t with | .locked v => _ | _ => _)
    cases hpc : s.pc t with
    | locked v =>
      have hmine := h.pc t
      rw [hpc] at hmine
      have hpos := h.positive v (h.passed _ hmine.2).1
      dsimp only
      by_cases hone : s.refcount v ≠ 1
      · rw [if_pos hone]
        refine Fine.assert (by omega) ((h.consume hpc hone).release hmine.1 fun b => ?_)
        change PcOk _ t (Function.update s.pc t .idle t)
        rw [Function.update_self]
        trivial
      · rw [if_neg hone]
        exact h.goto ⟨hmine.1, hmine.2, not_not.mp hone⟩ (by rw [hpc]; rfl) (by rw [hpc]; nofun) nofun
    | _ => trivial
  | reclaimRemove t =>
    change Fine (match s.pc t with | .checked v => _ | _ => _)
    cases hpc : s.pc t with
    | checked v =>
      have hmine := h.pc t
      rw [hpc] at hmine
      obtain ⟨hlock, hpassed, hone⟩ := hmine
      dsimp only
      rw [if_pos (h.passed _ hpassed).1]
      have hinv := h.remove hpc
      refine Fine.assert hone (hinv.release hlock fun b => ?_)
      have hpct := hinv.pc t
      have hself : Function.update s.pc t (.removed v) t = .removed v := Function.update_self ..
      change PcOk _ t (Function.update s.pc t (.removed v) t) at hpct ⊢
      rw [hself] at hpct ⊢
      exact hpct
    | _ => trivial
  | kfree t =>
    change Fine (match s.pc t with | .removed v => _ | _ => _)
    cases hpc : s.pc t with
    | removed v => exact h.kfree hpc
    | _ => trivial

/-! ## Whole runs -/

theorem inv_mounted : mounted.Inv where
  refcount _ hv := absurd hv List.not_mem_nil
  positive _ hv := absurd hv List.not_mem_nil
  held _ hr := absurd hr List.not_mem_nil
  passed _ hr := absurd hr List.not_mem_nil
  passed_nodup := List.nodup_nil
  nodup := List.nodup_nil
  pc _ := trivial
  depth _ _ hb := nomatch hb
  made _ hv := absurd hv List.not_mem_nil
  unfreed _ _ := rfl
  once v hv _ := absurd hv (Nat.not_lt_zero v)

/-- **The life of the vnodes**: none is freed twice or while a thread has a reference, none is left
over when no thread has a reference or is in one of the functions, and the table has no two vnodes
of one inode. -/
structure Lifetime (s : VnSys) : Prop where
  once : ∀ v, s.freed v ≤ 1
  unheld : ∀ t v, (t, v) ∈ s.held → s.freed v = 0
  gone : ∀ v < s.next, (∀ t, (t, v) ∉ s.held) → (∀ t, s.pc t = .idle) → s.freed v = 1
  nodup : (s.sfsVnodes.map s.ino).Nodup
  assertions : ∀ a, s.step a ≠ .error .kassert ∧ s.step a ≠ .error .notInPool

theorem Inv.lifetime_holds (h : s.Inv) : s.Lifetime where
  once v := by
    by_cases hv : v ∈ s.sfsVnodes ∨ s.next ≤ v
    · rw [h.unfreed v hv]
      exact Nat.zero_le 1
    · obtain ⟨hv, hn⟩ := not_or.mp hv
      rcases h.once v (Nat.lt_of_not_le hn) hv with hf | ⟨t, ht⟩
      · exact Nat.le_of_eq hf
      · have hpc := h.pc t
        rw [ht] at hpc
        rw [hpc.2.2.1]
        exact Nat.zero_le 1
  unheld t v hv := h.unfreed v (.inl (h.held (t, v) hv))
  gone v hv hheld hidle := by
    -- Without references the count of a vnode in the table would be 0.
    have hnone : v ∉ s.sfsVnodes := by
      intro htab
      have hheld₀ : refsTo s.held v = 0 := refsTo_eq_zero fun r hr he => by
        obtain ⟨t, w⟩ := r
        exact hheld t ((show w = v from he) ▸ hr)
      have hpassed₀ : refsTo s.passed v = 0 := refsTo_eq_zero fun r hr _ => by
        have hrec := (h.passed r hr).2
        rw [hidle r.1] at hrec
        cases hrec
      have hcount := h.refcount v htab
      have hpos := h.positive v htab
      omega
    refine (h.once v hv hnone).resolve_right ?_
    rintro ⟨t, ht⟩
    rw [hidle t] at ht
    cases ht
  nodup := h.nodup
  assertions a := by
    have hfine := h.step a
    constructor <;> intro hs <;> rw [hs] at hfine <;> exact hfine

/-- **The life of the vnodes** over every run of any number of threads. -/
theorem lifetime {as : List VnAction} (h : run step mounted as = .ok s) : s.Lifetime := by
  refine Inv.lifetime_holds (run_inv step (fun s a t hs ha => ?_) inv_mounted h)
  have hfine := hs.step a
  rw [ha] at hfine
  exact hfine

end Frame

/-- Thread 2 finds the vnode of inode 7 in the table after thread 1 has decided to reclaim it, so that
the reclaim is called off; then thread 2 drops the vnode, which is freed. -/
def revived : List VnAction :=
  [.biglockAcquire 1, .loadvnode 1 7, .loadRead 1 true, .biglockRelease 1, .decref 1 0,
    .biglockAcquire 2, .loadvnode 2 7, .loadFound 2, .biglockRelease 2, .reclaim 1, .reclaimCheck 1,
    .decref 2 0, .reclaim 2, .reclaimCheck 2, .reclaimRemove 2, .kfree 2]

theorem lifetime_revived :
    ∃ s, run step mounted revived = .ok s ∧ s.freed 0 = 1 ∧ s.sfsVnodes = [] ∧ s.Lifetime := by
  have h : ∃ s, run step mounted revived = .ok s ∧ s.freed 0 = 1 ∧ s.sfsVnodes = [] :=
    ⟨_, rfl, rfl, rfl⟩
  obtain ⟨s, hs, hfreed, htab⟩ := h
  exact ⟨s, hs, hfreed, htab, lifetime hs⟩

end VnSys

end Os161
