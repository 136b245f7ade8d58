import Mathlib.Algebra.Group.Pi.Basic
import Mathlib.Logic.Function.Basic
import Os161.Lib.Hoare
import Os161.Vfs.Devices

set_option autoImplicit false

/-!
# Paths and the references to vnodes

`vfslookup.c`, `vfspath.c`, `vfscwd.c` and the reference counts of `vnode.c`. The file systems are a
parameter: a lookup that succeeds hands out one new reference.

* `FsOps`: the operations of the file systems; `VfsState`: the counts and the current directory.
* `getdevice`, `vfsLookparent`, `vfsLookup`, `vfsOpen`, `vfsRemove`, `vfsRename`, `vfsLink`,
  `vfsChdir`.
-/

namespace Os161

/-- The operations of the file systems on their own state, and what `VOP_RECLAIM` does with the
last reference, which it is passed: lets it go, or fails and keeps it. -/
structure FsOps (σ : Type) where
  vnFs : VnodeId → Option Fs
  getroot : Fs → σ → Except VfsErr VnodeId × σ
  lookup : VnodeId → Str → σ → Except VfsErr VnodeId × σ
  lookparent : VnodeId → Str → ℕ → σ → Except VfsErr (VnodeId × Str) × σ
  creat : VnodeId → Str → Bool → ℕ → σ → Except VfsErr VnodeId × σ
  eachopen : VnodeId → ℕ → σ → Option VfsErr × σ
  truncate : VnodeId → ℕ → σ → Option VfsErr × σ
  remove : VnodeId → Str → σ → Option VfsErr × σ
  rename : VnodeId → Str → VnodeId → Str → σ → Option VfsErr × σ
  link : VnodeId → Str → VnodeId → σ → Option VfsErr × σ
  isdir : VnodeId → σ → Except VfsErr Bool × σ
  reclaim : VnodeId → σ → Bool × σ
  /-- Only a vnode of a file system is a directory. -/
  vnFs_of_isdir : ∀ v s, (isdir v s).1 = .ok true → vnFs v ≠ none

/-- The state: `vn_refcount` of the vnodes, `curproc->p_cwd`, `bootfs_vnode`, the known devices, the
references that a failed `VOP_RECLAIM` has kept, and the state of the file systems. -/
structure VfsState (σ : Type) where
  refcount : VnodeId → ℕ
  cwd : Option VnodeId
  bootfs : Option VnodeId
  devs : List KnownDev
  kept : VnodeId → ℕ
  fs : σ

/-- A function of the vfs layer. -/
abbrev VfsM (σ α : Type) : Type := StateT (VfsState σ) (Except Stop) α

/-- `NAME_MAX+1`. -/
def nameLen : ℕ := 256

/-- `O_ACCMODE`. -/
def oAccmode : ℕ := 3

/-- `O_CREAT`. -/
def oCreat : ℕ := 4

/-- `O_EXCL`. -/
def oExcl : ℕ := 8

/-- `O_TRUNC`. -/
def oTrunc : ℕ := 16

section Model

variable {σ : Type} (ops : FsOps σ)

/-- The vnode has one more reference. -/
def VfsState.addRef (s : VfsState σ) (v : VnodeId) : VfsState σ :=
  { s with refcount := Function.update s.refcount v (s.refcount v + 1) }

/-- An operation of a file system that hands out no reference. -/
def vop {α : Type} (op : σ → α × σ) : VfsM σ α := fun s =>
  let r := op s.fs
  .ok (r.1, { s with fs := r.2 })

/-- An operation of a file system that returns one new reference exactly on success. -/
def vopRef {α : Type} (new : α → VnodeId) (op : σ → Except VfsErr α × σ) :
    VfsM σ (Except VfsErr α) := fun s =>
  let r := op s.fs
  match r.1 with
  | .ok a => .ok (.ok a, { s with fs := r.2 }.addRef (new a))
  | .error e => .ok (.error e, { s with fs := r.2 })

/-- `vnode_incref`. -/
def vnodeIncref (v : VnodeId) : VfsM σ Unit := fun s => .ok ((), s.addRef v)

/-- `vnode_decref`. -/
def vnodeDecref (v : VnodeId) : VfsM σ Unit := fun s =>
  if s.refcount v = 0 then .error (.panic .kassert)
  else if 1 < s.refcount v then
    .ok ((), { s with refcount := Function.update s.refcount v (s.refcount v - 1) })
  -- The reference is passed to `VOP_RECLAIM`.
  else
    let r := ops.reclaim v s.fs
    if r.1 then .ok ((), { s with refcount := Function.update s.refcount v 0, fs := r.2 })
    else .ok ((), { s with kept := Function.update s.kept v (s.kept v + 1), fs := r.2 })

/-- `vfs_getcurdir`. -/
def vfsGetcurdir : VfsM σ (Except VfsErr VnodeId) := do
  match (← get).cwd with
  | some v =>
    vnodeIncref v
    return .ok v
  | none => return .error .enoent

/-- `vfs_getroot`, with the new reference to what it hands back. -/
def vfsGetrootRef (devname : Str) : VfsM σ (Except VfsErr VnodeId) := do
  match ← (vfsGetroot (← get).devs devname : Except Stop _) with
  | .error e => return .error e
  | .ok (.root f) => vopRef id (ops.getroot f)
  | .ok (.device v) =>
    vnodeIncref v
    return .ok v

/-- The character ends a device name. -/
def isSep (c : Char) : Bool := c == ':' || c == '/'

/-- `getdevice`: the rest of the path, and the vnode to start from with a new reference. -/
def getdevice (path : Str) : VfsM σ (Except VfsErr (Str × VnodeId)) :=
  match path.span (fun c => !isSep c) with
  -- `device:path`
  | (c :: devname, ':' :: rest) => do
    let result ← vfsGetrootRef ops (c :: devname)
    return result.map fun startvn => (rest.dropWhile (· == '/'), startvn)
  -- `/path`
  | ([], '/' :: rest) => do
    match (← get).bootfs with
    | none => return .error .enoent
    | some startvn =>
      vnodeIncref startvn
      return .ok (rest.dropWhile (· == '/'), startvn)
  -- `:path`
  | ([], _ :: rest) => do
    match ← vfsGetcurdir with
    | .error e => return .error e
    | .ok vn =>
      match ops.vnFs vn with
      | none => fun _ => .error (.panic .kassert)
      | some f =>
        let result ← vopRef id (ops.getroot f)
        vnodeDecref ops vn
        return result.map fun startvn => (rest.dropWhile (· == '/'), startvn)
  -- No colon before a slash: a path from the current directory.
  | _ => do
    let result ← vfsGetcurdir
    return result.map fun startvn => (path, startvn)

/-- `vfs_lookparent`. -/
def vfsLookparent (path : Str) (buflen : ℕ) : VfsM σ (Except VfsErr (VnodeId × Str)) := do
  match ← getdevice ops path with
  | .error e => return .error e
  | .ok (path, startvn) =>
    let result ← (if path = [] then pure (.error .einval)
      else vopRef Prod.fst (ops.lookparent startvn path buflen) : VfsM σ _)
    vnodeDecref ops startvn
    return result

/-- `vfs_lookup`. -/
def vfsLookup (path : Str) : VfsM σ (Except VfsErr VnodeId) := do
  match ← getdevice ops path with
  | .error e => return .error e
  | .ok (path, startvn) =>
    if path = [] then return .ok startvn
    else
      let result ← vopRef id (ops.lookup startvn path)
      vnodeDecref ops startvn
      return result

/-- The first part of `vfs_open`: the vnode, made or looked up. -/
def openVnode (path : Str) (openflags mode : ℕ) : VfsM σ (Except VfsErr VnodeId) :=
  if openflags &&& oCreat ≠ 0 then do
    match ← vfsLookparent ops path nameLen with
    | .error e => return .error e
    | .ok (dir, name) =>
      let result ← vopRef id (ops.creat dir name (openflags &&& oExcl ≠ 0) mode)
      vnodeDecref ops dir
      return result
  else vfsLookup ops path

/-- `vfs_open`. -/
def vfsOpen (path : Str) (openflags mode : ℕ) : VfsM σ (Except VfsErr VnodeId) :=
  let how := openflags &&& oAccmode
  if how = 3 then return .error .einval
  else do
    match ← openVnode ops path openflags mode with
    | .error e => return .error e
    | .ok vn =>
      match ← vop (ops.eachopen vn openflags) with
      | some e =>
        vnodeDecref ops vn
        return .error e
      | none =>
        let result ← (if openflags &&& oTrunc = 0 then pure none
          else if how = 0 then pure (some .einval)
          else vop (ops.truncate vn 0) : VfsM σ _)
        match result with
        | some e =>
          vnodeDecref ops vn
          return .error e
        | none => return .ok vn

/-- `vfs_remove`. -/
def vfsRemove (path : Str) : VfsM σ (Except VfsErr Unit) := do
  match ← vfsLookparent ops path nameLen with
  | .error e => return .error e
  | .ok (dir, name) =>
    let result ← vop (ops.remove dir name)
    vnodeDecref ops dir
    return result.elim (.ok ()) .error

/-- The two vnodes are not of one file system. -/
def crossDevice (v w : VnodeId) : Prop :=
  ops.vnFs v = none ∨ ops.vnFs w = none ∨ ops.vnFs v ≠ ops.vnFs w

instance (v w : VnodeId) : Decidable (crossDevice ops v w) := by
  unfold crossDevice
  infer_instance

/-- `vfs_rename`. -/
def vfsRename (oldpath newpath : Str) : VfsM σ (Except VfsErr Unit) := do
  match ← vfsLookparent ops oldpath nameLen with
  | .error e => return .error e
  | .ok (olddir, oldname) =>
    match ← vfsLookparent ops newpath nameLen with
    | .error e =>
      vnodeDecref ops olddir
      return .error e
    | .ok (newdir, newname) =>
      let result ← (if crossDevice ops olddir newdir then pure (some .exdev)
        else vop (ops.rename olddir oldname newdir newname) : VfsM σ _)
      vnodeDecref ops newdir
      vnodeDecref ops olddir
      return result.elim (.ok ()) .error

/-- `vfs_link`. -/
def vfsLink (oldpath newpath : Str) : VfsM σ (Except VfsErr Unit) := do
  match ← vfsLookup ops oldpath with
  | .error e => return .error e
  | .ok oldfile =>
    match ← vfsLookparent ops newpath nameLen with
    | .error e =>
      vnodeDecref ops oldfile
      return .error e
    | .ok (newdir, newname) =>
      let result ← (if crossDevice ops oldfile newdir then pure (some .exdev)
        else vop (ops.link newdir newname oldfile) : VfsM σ _)
      vnodeDecref ops newdir
      vnodeDecref ops oldfile
      return result.elim (.ok ()) .error

/-- `vfs_setcurdir`. -/
def vfsSetcurdir (dir : VnodeId) : VfsM σ (Except VfsErr Unit) := do
  match ← vop (ops.isdir dir) with
  | .error e => return .error e
  | .ok false => return .error .enotdir
  | .ok true =>
    vnodeIncref dir
    let old := (← get).cwd
    modify fun s => { s with cwd := some dir }
    (match old with
      | some old => vnodeDecref ops old
      | none => pure () : VfsM σ Unit)
    return .ok ()

/-- `vfs_chdir`. -/
def vfsChdir (path : Str) : VfsM σ (Except VfsErr Unit) := do
  match ← vfsLookup ops path with
  | .error e => return .error e
  | .ok vn =>
    let result ← vfsSetcurdir ops vn
    vnodeDecref ops vn
    return result

end Model

end Os161
