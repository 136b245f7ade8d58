import Os161.Semfs.Directory
import Mathlib.Data.Finset.Lattice.Fold

set_option autoImplicit false

/-!
# Creating a semaphore when memory runs out

`semfs_creat` and what it calls, with each `kmalloc` on its own, the result variable `*resultvn` and the
labels that undo what was done. The objects carry their addresses, and `live` are the blocks that are
allocated.

* `SemfsMem`, `SemfsMem.semfsCreat`: the state and the call.
* `SemfsMem.step`: all the calls that change the directory, the semaphores or the vnodes.
* **`semfsSemCreate_cases`**, **`semfsDirentryCreate_cases`**, **`semfsVnodeCreate_cases`**: a constructor
  that fails has released everything, and its destructor undoes one that succeeds.
-/

namespace Os161

open Transition

/-! ## The allocator and the constructors -/

/-- A choice of the free block that `kmalloc` returns. -/
structure FreeBlock where
  addr : Finset ℕ → ℕ
  fresh : ∀ live, addr live ∉ live

/-- The block above all others. -/
def FreeBlock.next : FreeBlock where
  addr live := live.sup id + 1
  fresh _ h := absurd (Finset.le_sup (f := id) h) (Nat.not_succ_le_self _)

/-- `kmalloc`, which fails or returns a free block. -/
def kmallocBlock (x : Option FreeBlock) (live : Finset ℕ) : Option ℕ × Finset ℕ :=
  match x with
  | none => (none, live)
  | some x => (some (x.addr live), insert (x.addr live) live)

/-- `kfree`. -/
def kfreeBlock (a : ℕ) (live : Finset ℕ) : Except Stop (Finset ℕ) :=
  if a ∈ live then .ok (live.erase a) else .error (.panic .invalidFree)

/-- An object and its copy of a name of `len` bytes, as `lock_create`, `cv_create` and
`semfs_direntry_create` make them. -/
def namedCreate (x y : Option FreeBlock) (len : ℕ) (live : Finset ℕ) :
    Except Stop (Option (ℕ × ℕ) × Finset ℕ) :=
  match kmallocBlock x live with
  | (none, live) => .ok (none, live)
  | (some p, live) =>
    match kmallocBlock (if len + 1 ≤ maxMemory then y else none) live with
    | (none, live) => do
      let live ← kfreeBlock p live
      return (none, live)
    | (some q, live) => .ok (some (p, q), live)

/-- The name and then the object are freed, as in `lock_destroy`, `cv_destroy` and
`semfs_direntry_destroy`. -/
def namedDestroy (p : ℕ × ℕ) (live : Finset ℕ) : Except Stop (Finset ℕ) := do
  let live ← kfreeBlock p.2 live
  kfreeBlock p.1 live

/-- `lock_create`. -/
def lockCreate (x y : Option FreeBlock) (name : List UInt8) :=
  namedCreate x y name.length

/-- `lock_destroy`. -/
def lockDestroy := namedDestroy

/-- `cv_create`. -/
def cvCreate (x y : Option FreeBlock) (name : List UInt8) :=
  namedCreate x y name.length

/-- `cv_destroy`. -/
def cvDestroy := namedDestroy

/-- `struct semfs_sem`, with its blocks and those of its lock and its cv. -/
structure SemObj extends SemfsSem where
  addr : ℕ
  semsLock : ℕ × ℕ
  semsCv : ℕ × ℕ
  deriving DecidableEq, Repr

/-- `struct semfs_direntry`, with its block and that of its name. -/
structure DirentryObj extends SemfsDirentry where
  addr : ℕ × ℕ
  deriving DecidableEq, Repr

/-- `struct semfs_vnode`, with its block. -/
structure SemfsVnode where
  addr : ℕ
  semvSemnum : ℕ
  vnRefcount : ℕ
  deriving DecidableEq, Repr

/-- The answers of the calls of `kmalloc` in a `semfs_creat`, and whether the three arrays can grow. -/
structure CreatBlocks where
  sem : Option FreeBlock
  lock : Option FreeBlock
  lockName : Option FreeBlock
  cv : Option FreeBlock
  cvName : Option FreeBlock
  sems : Bool
  dent : Option FreeBlock
  dentName : Option FreeBlock
  dents : Bool
  vnode : Option FreeBlock
  vnodes : Bool

/-- `snprintf` into a buffer of 32 bytes. -/
def snprintf32 (l : List UInt8) : List UInt8 := l.take 31

/-- `semfs_sem_create`. -/
def semfsSemCreate (b : CreatBlocks) (name : List UInt8) (live : Finset ℕ) :
    Except Stop (Option SemObj × Finset ℕ) :=
  -- "sem:l." and "sem:" before the name
  let lockname := snprintf32 ([115, 101, 109, 58, 108, 46] ++ name)
  let cvname := snprintf32 ([115, 101, 109, 58] ++ name)
  match kmallocBlock b.sem live with
  | (none, live) => .ok (none, live)
  | (some sem, live) => do
    let (lock, live) ← lockCreate b.lock b.lockName lockname live
    match lock with
    | none => do
      let live ← kfreeBlock sem live
      return (none, live)
    | some lock => do
      let (cv, live) ← cvCreate b.cv b.cvName cvname live
      match cv with
      | none => do
        let live ← lockDestroy lock live
        let live ← kfreeBlock sem live
        return (none, live)
      | some cv => return (some ⟨⟨false, false⟩, sem, lock, cv⟩, live)

/-- `semfs_sem_destroy`. -/
def semfsSemDestroy (sem : SemObj) (live : Finset ℕ) : Except Stop (Finset ℕ) := do
  let live ← cvDestroy sem.semsCv live
  let live ← lockDestroy sem.semsLock live
  kfreeBlock sem.addr live

/-- `semfs_direntry_create`. -/
def semfsDirentryCreate (x y : Option FreeBlock) (name : List UInt8) (semnum : ℕ)
    (live : Finset ℕ) : Except Stop (Option DirentryObj × Finset ℕ) := do
  let (p, live) ← namedCreate x y name.length live
  return (p.map fun p => ⟨⟨name, semnum⟩, p⟩, live)

/-- `semfs_direntry_destroy`. -/
def semfsDirentryDestroy (dent : DirentryObj) (live : Finset ℕ) : Except Stop (Finset ℕ) :=
  namedDestroy dent.addr live

/-- `semfs_vnode_create`. -/
def semfsVnodeCreate (x : Option FreeBlock) (semnum : ℕ) (live : Finset ℕ) :
    Option SemfsVnode × Finset ℕ :=
  let (p, live) := kmallocBlock x live
  (p.map fun p => ⟨p, semnum, 1⟩, live)

/-- `semfs_vnode_destroy`. -/
def semfsVnodeDestroy (semv : SemfsVnode) (live : Finset ℕ) : Except Stop (Finset ℕ) := do
  kassert (semv.vnRefcount = 1)
  kfreeBlock semv.addr live

/-! ## The operations -/

/-- `struct semfs` with the blocks that are allocated. -/
structure SemfsMem where
  dents : List (Option DirentryObj)
  sems : List (Option SemObj)
  vnodes : List SemfsVnode
  live : Finset ℕ
  deriving DecidableEq

/-- An entry for the name. -/
def DirentryObj.named (name : List UInt8) (dent : Option DirentryObj) : Bool :=
  SemfsDirentry.named name (dent.map DirentryObj.toSemfsDirentry)

/-- `sems_linked` is set. -/
def SemObj.link (sem : SemObj) : SemObj := { sem with linked := true }

/-- `sems_linked` is cleared. -/
def SemObj.unlink (sem : SemObj) : SemObj := { sem with linked := false }

/-- `sems_hasvnode` is set or cleared. -/
def SemObj.setHasvnode (sem : SemObj) (x : Bool) : SemObj := { sem with hasvnode := x }

/-- `VOP_INCREF`. -/
def SemfsVnode.incref (v : SemfsVnode) : SemfsVnode := { v with vnRefcount := v.vnRefcount + 1 }

/-- A reference that is not the last one is dropped. -/
def SemfsVnode.decref (v : SemfsVnode) : SemfsVnode := { v with vnRefcount := v.vnRefcount - 1 }

namespace SemfsMem

/-- After `semfs_create`. -/
def empty (live : Finset ℕ) : SemfsMem := ⟨[], [], [], live⟩

/-- `semfs_sem_insert`. -/
def semfsSemInsert (ok : Bool) (sems : List (Option SemObj)) (sem : SemObj) :
    Except FsErr (List (Option SemObj) × ℕ) :=
  if sems.length = semfsRootdir then .error .enospc
  else
    let i := sems.findIdx Option.isNone
    if i < sems.length then .ok (sems.set i (some sem), i)
    else
      match arrayAdd ok sems (some sem) with
      | some r => .ok r
      | none => .error .enomem

/-- The error, `*resultvn` where it has been set, and the state after a call. -/
abbrev Result : Type := Option FsErr × Option ℕ × SemfsMem

/-- The end of `semfs_getvnode`: the semaphore has its new vnode. -/
def setHasvnode (s : SemfsMem) (semnum : ℕ) : Except Stop SemfsMem :=
  if semnum = semfsRootdir then .ok s
  else
    match s.sems[semnum]? with
    | some (some sem) => do
      kassert (sem.hasvnode = false)
      return { s with sems := s.sems.set semnum (some (sem.setHasvnode true)) }
    | _ => .error (.panic .kassert)

/-- `semfs_getvnode`. -/
def semfsGetvnode (s : SemfsMem) (semnum : ℕ) (x : Option FreeBlock) (ok : Bool) :
    Except Stop Result :=
  let i := s.vnodes.findIdx fun v => v.semvSemnum = semnum
  match s.vnodes[i]? with
  | some v => .ok (none, some v.addr, { s with vnodes := s.vnodes.modify i SemfsVnode.incref })
  | none =>
    match semfsVnodeCreate x semnum s.live with
    | (none, live) => .ok (some .enomem, none, { s with live := live })
    | (some semv, live) =>
      match arrayAdd ok s.vnodes semv with
      | none => do
        let live ← semfsVnodeDestroy semv live
        return (some .enomem, none, { s with live := live })
      | some (vnodes, _) => do
        let s ← setHasvnode { s with vnodes := vnodes, live := live } semnum
        return (none, some semv.addr, s)

/-- `fail_uncreate`. -/
def failUncreate (s : SemfsMem) (result : Option FsErr) (vn : Option ℕ) (sem : SemObj) :
    Except Stop Result := do
  let live ← semfsSemDestroy sem s.live
  return (result, vn, { s with live := live })

/-- `fail_uninsert`. -/
def failUninsert (s : SemfsMem) (result : Option FsErr) (vn : Option ℕ) (sem : SemObj)
    (semnum : ℕ) : Except Stop Result :=
  failUncreate { s with sems := s.sems.set semnum none } result vn sem

/-- `fail_undent`. -/
def failUndent (s : SemfsMem) (result : Option FsErr) (vn : Option ℕ) (sem : SemObj) (semnum : ℕ)
    (dent : DirentryObj) : Except Stop Result := do
  let live ← semfsDirentryDestroy dent s.live
  failUninsert { s with live := live } result vn sem semnum

/-- `fail_undir`. -/
def failUndir (s : SemfsMem) (result : Option FsErr) (vn : Option ℕ) (sem : SemObj) (semnum : ℕ)
    (dent : DirentryObj) (empty : ℕ) : Except Stop Result :=
  failUndent { s with dents := s.dents.set empty none } result vn sem semnum dent

/-- `semfs_creat` with the entry in slot `empty`. -/
def creatVnode (s : SemfsMem) (b : CreatBlocks) (sem : SemObj) (semnum : ℕ) (dent : DirentryObj)
    (empty : ℕ) : Except Stop Result := do
  let (result, vn, s) ← s.semfsGetvnode semnum b.vnode b.vnodes
  if result.isSome then failUndir s result vn sem semnum dent empty
  else return (result, vn, { s with sems := s.sems.modify semnum (Option.map SemObj.link) })

/-- `semfs_creat` with the semaphore in the table. -/
def creatDent (s : SemfsMem) (b : CreatBlocks) (name : List UInt8) (sem : SemObj) (semnum : ℕ) :
    Except Stop Result := do
  let empty := s.dents.findIdx Option.isNone
  let (dent, live) ← semfsDirentryCreate b.dent b.dentName name semnum s.live
  let s := { s with live := live }
  match dent with
  -- `result` is still that of `semfs_sem_insert`
  | none => failUninsert s none none sem semnum
  | some dent =>
    if empty < s.dents.length then
      creatVnode { s with dents := s.dents.set empty (some dent) } b sem semnum dent empty
    else
      match arrayAdd b.dents s.dents (some dent) with
      | some (dents, empty) => creatVnode { s with dents := dents } b sem semnum dent empty
      | none => failUndent s (some .enomem) none sem semnum dent

/-- `semfs_creat` of a new semaphore. -/
def creatNew (s : SemfsMem) (b : CreatBlocks) (name : List UInt8) : Except Stop Result := do
  let (sem, live) ← semfsSemCreate b name s.live
  let s := { s with live := live }
  match sem with
  | none => return (some .enomem, none, s)
  | some sem =>
    match semfsSemInsert b.sems s.sems sem with
    | .error e => failUncreate s (some e) none sem
    | .ok (sems, semnum) => creatDent { s with sems := sems } b name sem semnum

/-- `semfs_creat`. -/
def semfsCreat (s : SemfsMem) (name : List UInt8) (excl : Bool) (b : CreatBlocks) :
    Except Stop Result :=
  if name = [46] ∨ name = [46, 46] then .ok (some .eexist, none, s)
  else
    match s.dents.find? (DirentryObj.named name) with
    | some (some dent) =>
      if excl then .ok (some .eexist, none, s)
      else s.semfsGetvnode dent.semdSemnum b.vnode b.vnodes
    | _ => s.creatNew b name

/-- `semfs_lookup`, but for "." and "..". -/
def semfsLookup (s : SemfsMem) (path : List UInt8) (x : Option FreeBlock) (ok : Bool) :
    Except Stop Result :=
  match s.dents.find? (DirentryObj.named path) with
  | some (some dent) => s.semfsGetvnode dent.semdSemnum x ok
  | _ => .ok (some .enoent, none, s)

/-- The semaphore leaves its slot, and is destroyed. -/
def dropSem (s : SemfsMem) (semnum : ℕ) (sem : SemObj) : Except Stop SemfsMem := do
  let live ← semfsSemDestroy sem s.live
  return { s with sems := s.sems.set semnum none, live := live }

/-- `semfs_remove`. -/
def semfsRemove (s : SemfsMem) (name : List UInt8) : Except Stop (Option FsErr × SemfsMem) :=
  if name = [46] ∨ name = [46, 46] then .ok (some .einval, s)
  else
    let i := s.dents.findIdx (DirentryObj.named name)
    match s.dents[i]? with
    | some (some dent) =>
      match s.sems[dent.semdSemnum]? with
      | some (some sem) => do
        kassert (sem.linked = true)
        let s ← if sem.hasvnode then
            .ok { s with sems := s.sems.set dent.semdSemnum (some sem.unlink) }
          else s.dropSem dent.semdSemnum sem
        let live ← semfsDirentryDestroy dent s.live
        return (none, { s with dents := s.dents.set i none, live := live })
      | _ => .error (.panic .nullPointer)
    | _ => .ok (some .enoent, s)

/-- The part of `semfs_reclaim` about the semaphore of the vnode. -/
def clearHasvnode (s : SemfsMem) (semnum : ℕ) : Except Stop SemfsMem :=
  if semnum = semfsRootdir then .ok s
  else
    match s.sems[semnum]? with
    | some (some sem) => do
      kassert (sem.hasvnode = true)
      if sem.linked then
        return { s with sems := s.sems.set semnum (some (sem.setHasvnode false)) }
      else s.dropSem semnum sem
    | _ => .error (.panic .nullPointer)

/-- `vnode_decref` of vnode `i`, with `semfs_reclaim` for the last reference. -/
def vnodeDecref (s : SemfsMem) (i : ℕ) : Except Stop SemfsMem :=
  match s.vnodes[i]? with
  | none => .error .blocked
  | some semv => do
    kassert (0 < semv.vnRefcount)
    if 1 < semv.vnRefcount then
      return { s with vnodes := s.vnodes.modify i SemfsVnode.decref }
    else do
      let s ← clearHasvnode { s with vnodes := s.vnodes.eraseIdx i } semv.semvSemnum
      let live ← semfsVnodeDestroy semv s.live
      return { s with live := live }

end SemfsMem

/-- The calls that change the directory, the semaphores or the vnodes; `getroot` is `semfs_getroot`. -/
inductive SemfsCall
  | creat (name : List UInt8) (excl : Bool) (b : CreatBlocks)
  | lookup (path : List UInt8) (x : Option FreeBlock) (ok : Bool)
  | getroot (x : Option FreeBlock) (ok : Bool)
  | remove (name : List UInt8)
  | decref (i : ℕ)

/-- A call. -/
def SemfsMem.step (s : SemfsMem) : SemfsCall → Except Stop SemfsMem
  | .creat name excl b => (s.semfsCreat name excl b).map (·.2.2)
  | .lookup path x ok => (s.semfsLookup path x ok).map (·.2.2)
  | .getroot x ok => (s.semfsGetvnode semfsRootdir x ok).map (·.2.2)
  | .remove name => (s.semfsRemove name).map Prod.snd
  | .decref i => s.vnodeDecref i

/-! ## Constructors and destructors -/

section Blocks

variable {x y : Option FreeBlock} {b : CreatBlocks} {name : List UInt8} {live : Finset ℕ}

theorem kmallocBlock_cases (x : Option FreeBlock) (live : Finset ℕ) :
    (∃ a live', kmallocBlock x live = (some a, live') ∧ x.isSome = true ∧
      kfreeBlock a live' = .ok live) ∨ kmallocBlock x live = (none, live) ∧ x.isSome = false := by
  cases x with
  | none => exact .inr ⟨rfl, rfl⟩
  | some x =>
    refine .inl ⟨_, _, rfl, rfl, ?_⟩
    unfold kfreeBlock
    rw [if_pos (Finset.mem_insert_self _ _), Finset.erase_insert (x.fresh live)]

/-- The object and a copy of its name can be allocated. -/
def NamedBlocks (x y : Option FreeBlock) (len : ℕ) : Prop :=
  x.isSome = true ∧ y.isSome = true ∧ len + 1 ≤ maxMemory

/-- **An object with a name** is created with both blocks, which its destructor frees, or not at all. -/
theorem namedCreate_cases (x y : Option FreeBlock) (len : ℕ) (live : Finset ℕ) :
    (∃ p live', namedCreate x y len live = .ok (some p, live') ∧ NamedBlocks x y len ∧
      namedDestroy p live' = .ok live) ∨
    namedCreate x y len live = .ok (none, live) ∧ ¬ NamedBlocks x y len := by
  unfold namedCreate NamedBlocks
  rcases kmallocBlock_cases x live with ⟨p, live₁, hx, hsome, hp⟩ | ⟨hx, hsome⟩
  · rw [hx]
    simp only
    rcases kmallocBlock_cases (if len + 1 ≤ maxMemory then y else none) live₁ with
      ⟨q, live₂, hy, hsome', hq⟩ | ⟨hy, hsome'⟩
    · rw [hy]
      refine .inl ⟨_, _, rfl, ⟨hsome, ?_⟩, bind_eq_ok.mpr ⟨_, hq, hp⟩⟩
      split_ifs at hsome' with hlen
      · exact ⟨hsome', hlen⟩
      · cases hsome'
    · rw [hy]
      refine .inr ⟨bind_eq_ok.mpr ⟨_, hp, rfl⟩, fun h => ?_⟩
      rw [if_pos h.2.2, h.2.1] at hsome'
      cases hsome'
  · rw [hx]
    refine .inr ⟨rfl, fun h => ?_⟩
    rw [h.1] at hsome
    cases hsome

/-- The semaphore, its lock and its cv can be allocated. -/
def CreatBlocks.SemBlocks (b : CreatBlocks) : Prop :=
  b.sem.isSome = true ∧ (b.lock.isSome = true ∧ b.lockName.isSome = true) ∧
    b.cv.isSome = true ∧ b.cvName.isSome = true

theorem namedBlocks_snprintf {l : List UInt8} :
    NamedBlocks x y (snprintf32 l).length ↔ x.isSome = true ∧ y.isSome = true := by
  have hlen : (snprintf32 l).length + 1 ≤ maxMemory := by
    unfold snprintf32 maxMemory
    rw [List.length_take]
    omega
  exact ⟨fun h => ⟨h.1, h.2.1⟩, fun h => ⟨h.1, h.2, hlen⟩⟩

/-- **`semfs_sem_create`** makes a semaphore that `semfs_sem_destroy` releases, or nothing. -/
theorem semfsSemCreate_cases (b : CreatBlocks) (name : List UInt8) (live : Finset ℕ) :
    (∃ sem live', semfsSemCreate b name live = .ok (some sem, live') ∧ b.SemBlocks ∧
      sem.toSemfsSem = ⟨false, false⟩ ∧ semfsSemDestroy sem live' = .ok live) ∨
    semfsSemCreate b name live = .ok (none, live) ∧ ¬ b.SemBlocks := by
  unfold semfsSemCreate CreatBlocks.SemBlocks lockCreate cvCreate
  rcases kmallocBlock_cases b.sem live with ⟨sem, live₁, hx, hsome, hsem⟩ | ⟨hx, hsome⟩
  · rw [hx]
    simp only
    rcases namedCreate_cases b.lock b.lockName
      (snprintf32 ([115, 101, 109, 58, 108, 46] ++ name)).length live₁ with
      ⟨lock, live₂, hl, hlb, hlock⟩ | ⟨hl, hlb⟩
    · rcases namedCreate_cases b.cv b.cvName
        (snprintf32 ([115, 101, 109, 58] ++ name)).length live₂ with
        ⟨cv, live₃, hc, hcb, hcv⟩ | ⟨hc, hcb⟩
      · refine .inl ⟨_, _, bind_eq_ok.mpr ⟨_, hl, bind_eq_ok.mpr ⟨_, hc, rfl⟩⟩,
          ⟨hsome, namedBlocks_snprintf.mp hlb, namedBlocks_snprintf.mp hcb⟩, rfl, ?_⟩
        exact bind_eq_ok.mpr ⟨_, hcv, bind_eq_ok.mpr ⟨_, hlock, hsem⟩⟩
      · exact .inr ⟨bind_eq_ok.mpr ⟨_, hl, bind_eq_ok.mpr ⟨_, hc, bind_eq_ok.mpr ⟨_, hlock,
          bind_eq_ok.mpr ⟨_, hsem, rfl⟩⟩⟩⟩, fun h => hcb (namedBlocks_snprintf.mpr h.2.2)⟩
    · exact .inr ⟨bind_eq_ok.mpr ⟨_, hl, bind_eq_ok.mpr ⟨_, hsem, rfl⟩⟩,
        fun h => hlb (namedBlocks_snprintf.mpr h.2.1)⟩
  · rw [hx]
    exact .inr ⟨rfl, fun h => Bool.false_ne_true (hsome.symm.trans h.1)⟩

/-- **`semfs_direntry_create`** makes an entry that `semfs_direntry_destroy` releases, or nothing. -/
theorem semfsDirentryCreate_cases (x y : Option FreeBlock) (name : List UInt8) (semnum : ℕ)
    (live : Finset ℕ) :
    (∃ dent live', semfsDirentryCreate x y name semnum live = .ok (some dent, live') ∧
      NamedBlocks x y name.length ∧ dent.toSemfsDirentry = ⟨name, semnum⟩ ∧
      semfsDirentryDestroy dent live' = .ok live) ∨
    semfsDirentryCreate x y name semnum live = .ok (none, live) ∧
      ¬ NamedBlocks x y name.length := by
  unfold semfsDirentryCreate
  rcases namedCreate_cases x y name.length live with ⟨p, live', hp, hb, hd⟩ | ⟨hp, hb⟩
  · rw [hp]
    exact .inl ⟨_, _, rfl, hb, rfl, hd⟩
  · rw [hp]
    exact .inr ⟨rfl, hb⟩

/-- **`semfs_vnode_create`** makes a vnode that `semfs_vnode_destroy` releases, or nothing. -/
theorem semfsVnodeCreate_cases (x : Option FreeBlock) (semnum : ℕ) (live : Finset ℕ) :
    (∃ a live', semfsVnodeCreate x semnum live = (some ⟨a, semnum, 1⟩, live') ∧
      semfsVnodeDestroy ⟨a, semnum, 1⟩ live' = .ok live) ∨
    semfsVnodeCreate x semnum live = (none, live) := by
  unfold semfsVnodeCreate
  rcases kmallocBlock_cases x live with ⟨a, live', ha, -, hf⟩ | ⟨ha, -⟩
  · rw [ha]
    exact .inl ⟨a, live', rfl, hf⟩
  · rw [ha]
    exact .inr rfl

end Blocks

end Os161
