import Os161.Machine.Stop

set_option autoImplicit false

/-!
# The known devices

`vfslist.c`: the table of the devices and file systems that a path can name. A device has its name,
a mountable one also its raw name, and one with a file system the name of the volume.

* `KnownDev`, `KnownDev.names`; `vfsGetroot`, `badnames`, `findmount`.
* `vfsDoadd`, `vfsMount`, `vfsSwapon`, `vfsUnmount`; `VfsList.step`: any sequence of them.
* **`vfsGetroot_perm`**: with no shared names the order of the devices does not matter.
* **`namesApart_run`**: no name is shared as long as no mounted volume brings one that is taken.
-/

namespace Os161

open Transition

/-- A string. -/
abbrev Str : Type := List Char

/-- A `struct vnode`. -/
abbrev VnodeId : Type := ℕ

/-- A `struct device`. -/
abbrev DeviceId : Type := ℕ

/-- The errors of the vfs layer, and those that a file system reports. -/
inductive VfsErr
  | einval
  | enoent
  | enodev
  | enxio
  | ebusy
  | eexist
  | enomem
  | exdev
  | enotdir
  | enametoolong
  | fsop (code : ℕ)
  deriving DecidableEq, Repr

/-- A `struct fs`, with the name that `FSOP_GETVOLNAME` returns. -/
structure Fs where
  id : ℕ
  volname : Option Str
  deriving DecidableEq, Repr

/-- `kd_fs` where it is not `NULL`: a file system, or `SWAP_FS`. -/
inductive KdFs
  | fs (f : Fs)
  | swap
  deriving DecidableEq, Repr

/-- `struct knowndev`. -/
structure KnownDev where
  name : Str
  rawname : Option Str
  device : Option DeviceId
  vnode : VnodeId
  fs : Option KdFs
  deriving DecidableEq, Repr

/-- What `vfs_getroot` finds: a file system, whose root it asks for, or a device, whose vnode it
hands back with a new reference. -/
inductive Named
  | root (f : Fs)
  | device (v : VnodeId)
  deriving DecidableEq, Repr

namespace KnownDev

/-- The name of the mounted volume, if there is one and it has one. -/
def volname (kd : KnownDev) : Option Str :=
  match kd.fs with
  | some (.fs f) => f.volname
  | _ => none

/-- **The names of a known device.** -/
def names (kd : KnownDev) : List Str :=
  kd.name :: (kd.rawname.toList ++ kd.volname.toList)

/-- The last two tests in the loop of `vfs_getroot`: the device itself, by its name or its raw
name. -/
def getvnode (kd : KnownDev) (devname : Str) : Except Stop (Option (Except VfsErr Named)) :=
  if kd.name = devname then do
    kassert (kd.fs = none)
    kassert (kd.rawname = none)
    kassert (kd.device ≠ none)
    return some (.ok (.device kd.vnode))
  else if kd.rawname = some devname then do
    kassert (kd.device ≠ none)
    return some (.ok (.device kd.vnode))
  else return none

/-- The body of the loop of `vfs_getroot`; `none` where it goes on to the next device. -/
def getroot (kd : KnownDev) (devname : Str) : Except Stop (Option (Except VfsErr Named)) :=
  match kd.fs with
  | some (.fs f) =>
    if kd.name = devname ∨ f.volname = some devname then return some (.ok (.root f))
    else kd.getvnode devname
  | _ =>
    if kd.rawname ≠ none ∧ kd.name = devname then return some (.error .enxio)
    else kd.getvnode devname

end KnownDev

/-- `vfs_getroot`. -/
def vfsGetroot : List KnownDev → Str → Except Stop (Except VfsErr Named)
  | [], _ => return .error .enodev
  | kd :: devs, devname => do
    match ← kd.getroot devname with
    | some r => return r
    | none => vfsGetroot devs devname

/-- `mkrawname`. -/
def mkrawname (name : Str) : Str := name ++ ['r', 'a', 'w']

/-- `samestring`. -/
def samestring (a b : Option Str) : Bool :=
  match a, b with
  | some a, some b => a == b
  | _, _ => false

/-- `samestring3`. -/
def samestring3 (a b c d : Option Str) : Bool :=
  samestring a b || samestring a c || samestring a d

/-- `badnames`. -/
def badnames (devs : List KnownDev) (n1 n2 n3 : Option Str) : Bool :=
  devs.any fun kd =>
    samestring3 kd.volname n1 n2 n3 || samestring3 kd.rawname n1 n2 n3 ||
      samestring3 (some kd.name) n1 n2 n3

/-- `vfs_doadd`. `vnode` is what `dev_create_vnode` returns, `none` if that or one of the
allocations beside it fails; `grown` is whether `knowndevarray_add` finds memory. -/
def vfsDoadd (devs : List KnownDev) (dname : Str) (mountable : Bool) (dev : Option DeviceId)
    (fs : Option Fs) (vnode : Option VnodeId) (grown : Bool) : Option VfsErr × List KnownDev :=
  match vnode with
  | none => (some .enomem, devs)
  | some vnode =>
    let rawname := if mountable then some (mkrawname dname) else none
    if badnames devs (some dname) rawname (fs.bind Fs.volname) then (some .eexist, devs)
    else if grown then (none, devs ++ [⟨dname, rawname, dev, vnode, fs.map .fs⟩])
    else (some .enomem, devs)

/-- `vfs_adddev`. -/
def vfsAdddev (devs : List KnownDev) (devname : Str) (dev : DeviceId) (mountable : Bool)
    (vnode : Option VnodeId) (grown : Bool) : Option VfsErr × List KnownDev :=
  vfsDoadd devs devname mountable (some dev) none vnode grown

/-- `vfs_addfs`. -/
def vfsAddfs (devs : List KnownDev) (devname : Str) (fs : Fs) (vnode : Option VnodeId)
    (grown : Bool) : Option VfsErr × List KnownDev :=
  vfsDoadd devs devname false none (some fs) vnode grown

/-- `findmount`: the first mountable device of that name, with its place. -/
def findmount : List KnownDev → Str → Option (ℕ × KnownDev)
  | [], _ => none
  | kd :: devs, devname =>
    if kd.rawname ≠ none ∧ devname = kd.name then some (0, kd)
    else (findmount devs devname).map fun r => (r.1 + 1, r.2)

/-- `kd->kd_fs = fs`. -/
def setFs (devs : List KnownDev) (i : ℕ) (fs : Option KdFs) : List KnownDev :=
  devs.modify i fun kd => { kd with fs := fs }

/-- `vfs_mount`. -/
def vfsMount (devs : List KnownDev) (devname : Str) (mountfunc : DeviceId → Except VfsErr Fs) :
    Except Stop (Option VfsErr × List KnownDev) :=
  match findmount devs devname with
  | none => return (some .enodev, devs)
  | some (i, kd) =>
    if kd.fs ≠ none then return (some .ebusy, devs)
    else
      match kd.device with
      | none => .error (.panic .kassert)
      | some dev =>
        match mountfunc dev with
        | .error e => return (some e, devs)
        | .ok fs => return (none, setFs devs i (some (.fs fs)))

/-- The name has a trailing colon. -/
def hasColon (devname : Str) : Bool := devname.getLast? == some ':'

/-- `vfs_swapon`; `copied` is whether `kstrdup` finds memory for a name without its trailing colon.
On success it hands back the vnode of the device. -/
def vfsSwapon (devs : List KnownDev) (devname : Str) (copied : Bool) :
    Except Stop (Except VfsErr VnodeId × List KnownDev) :=
  if hasColon devname && !copied then return (.error .enomem, devs)
  else
    match findmount devs (if hasColon devname then devname.dropLast else devname) with
    | none => return (.error .enodev, devs)
    | some (i, kd) =>
      if kd.fs ≠ none then return (.error .ebusy, devs)
      else do
        kassert (kd.device ≠ none)
        return (.ok kd.vnode, setFs devs i (some .swap))

/-- `vfs_unmount`, with what `FSOP_SYNC` and `FSOP_UNMOUNT` return. -/
def vfsUnmount (devs : List KnownDev) (devname : Str) (fsopSync fsopUnmount : Fs → Option VfsErr) :
    Except Stop (Option VfsErr × List KnownDev) :=
  match findmount devs devname with
  | none => return (some .enodev, devs)
  | some (i, kd) =>
    match kd.fs with
    | some (.fs fs) => do
      kassert (kd.device ≠ none)
      match fsopSync fs with
      | some e => return (some e, devs)
      | none =>
        match fsopUnmount fs with
        | some e => return (some e, devs)
        | none => return (none, setFs devs i none)
    | _ => return (some .einval, devs)

/-- The calls that change the table. -/
inductive VfsListOp
  | adddev (devname : Str) (dev : DeviceId) (mountable : Bool) (vnode : Option VnodeId)
    (grown : Bool)
  | addfs (devname : Str) (fs : Fs) (vnode : Option VnodeId) (grown : Bool)
  | mount (devname : Str) (mountfunc : DeviceId → Except VfsErr Fs)
  | swapon (devname : Str) (copied : Bool)
  | unmount (devname : Str) (fsopSync fsopUnmount : Fs → Option VfsErr)

/-- The table after a call. -/
def VfsListOp.step (devs : List KnownDev) : VfsListOp → Except Stop (List KnownDev)
  | .adddev devname dev mountable vnode grown =>
    return (vfsAdddev devs devname dev mountable vnode grown).2
  | .addfs devname fs vnode grown => return (vfsAddfs devs devname fs vnode grown).2
  | .mount devname mountfunc => return (← vfsMount devs devname mountfunc).2
  | .swapon devname copied => return (← vfsSwapon devs devname copied).2
  | .unmount devname fsopSync fsopUnmount =>
    return (← vfsUnmount devs devname fsopSync fsopUnmount).2

/-- **No name is shared** by two known devices. -/
def NamesApart (devs : List KnownDev) : Prop :=
  devs.Pairwise fun a b => ∀ n ∈ a.names, n ∉ b.names

/-- The call does not mount a volume that has the name of another device. -/
def FreshVolume (devs : List KnownDev) : VfsListOp → Prop
  | .mount devname mountfunc =>
    match findmount devs devname with
    | some (i, ⟨_, _, some dev, _, none⟩) =>
      match mountfunc dev with
      | .ok fs => ∀ n ∈ fs.volname, ∀ kd ∈ devs.eraseIdx i, n ∉ kd.names
      | .error _ => True
    | _ => True
  | _ => True

instance (devs : List KnownDev) (op : VfsListOp) : Decidable (FreshVolume devs op) := by
  unfold FreshVolume
  split
  · split
    · split <;> infer_instance
    · infer_instance
  · infer_instance

section Names

variable {devs devs' : List KnownDev} {kd kd' : KnownDev} {devname n : Str} {i : ℕ}

theorem KnownDev.mem_names :
    n ∈ kd.names ↔ n = kd.name ∨ kd.rawname = some n ∨ kd.volname = some n := by
  simp [KnownDev.names]

/-- A `KASSERT` before a result that is there. -/
theorem kassert_bind_ne {p : Prop} [Decidable p] {α : Type} {x : Except Stop (Option α)}
    (hx : x ≠ .ok none) : (kassert p >>= fun _ => x) ≠ .ok none := by
  unfold kassert
  split_ifs with hp
  · exact hx
  · exact fun h => nomatch h

theorem KnownDev.getvnode_eq_none :
    kd.getvnode n = .ok none ↔ ¬ (n = kd.name ∨ kd.rawname = some n) := by
  unfold KnownDev.getvnode
  by_cases hname : kd.name = n
  · rw [if_pos hname]
    exact iff_of_false (kassert_bind_ne (kassert_bind_ne (kassert_bind_ne nofun)))
      (fun h => h (.inl hname.symm))
  · rw [if_neg hname]
    by_cases hraw : kd.rawname = some n
    · rw [if_pos hraw]
      exact iff_of_false (kassert_bind_ne nofun) (fun h => h (.inr hraw))
    · rw [if_neg hraw]
      exact iff_of_true rfl (not_or.mpr ⟨fun h => hname h.symm, hraw⟩)

/-- A test before the device itself. -/
theorem KnownDev.ite_getvnode_eq_none {p : Prop} [Decidable p] {r : Except VfsErr Named} :
    (if p then return some r else kd.getvnode n) = .ok none ↔
      ¬ (p ∨ n = kd.name ∨ kd.rawname = some n) := by
  by_cases hp : p
  · rw [if_pos hp]
    exact iff_of_false nofun fun h => h (.inl hp)
  · rw [if_neg hp, KnownDev.getvnode_eq_none, not_or (p := p)]
    exact (and_iff_right hp).symm

/-- **`vfs_getroot` goes on** exactly at the devices that do not have the name. -/
theorem KnownDev.getroot_eq_none : kd.getroot n = .ok none ↔ n ∉ kd.names := by
  rw [KnownDev.mem_names]
  unfold KnownDev.getroot KnownDev.volname
  cases hfs : kd.fs with
  | none =>
    dsimp only
    rw [KnownDev.ite_getvnode_eq_none]
    grind
  | some k =>
    cases k with
    | swap =>
      dsimp only
      rw [KnownDev.ite_getvnode_eq_none]
      grind
    | fs f =>
      dsimp only
      rw [KnownDev.ite_getvnode_eq_none]
      grind

theorem findmount_eq_some (h : findmount devs devname = some (i, kd)) :
    devs[i]? = some kd ∧ kd.rawname ≠ none ∧ kd.name = devname := by
  induction devs generalizing i with
  | nil => cases h
  | cons k devs ih =>
    unfold findmount at h
    split_ifs at h with hk
    · cases h
      exact ⟨rfl, hk.1, hk.2.symm⟩
    · obtain ⟨⟨j, k'⟩, hj, he⟩ := Option.map_eq_some_iff.mp h
      cases he
      exact ih hj

/-! ## The order of the devices -/

theorem NamesApart.symm {a b : KnownDev} (h : ∀ n ∈ a.names, n ∉ b.names) :
    ∀ n ∈ b.names, n ∉ a.names :=
  fun n hb ha => h n ha hb

theorem NamesApart.perm (h : NamesApart devs) (hp : devs.Perm devs') : NamesApart devs' :=
  List.Pairwise.perm h hp fun h => NamesApart.symm h

theorem vfsGetroot_cons_of_notMem (hn : n ∉ kd.names) :
    vfsGetroot (kd :: devs) n = vfsGetroot devs n := by
  rw [vfsGetroot, KnownDev.getroot_eq_none.mpr hn]
  rfl

/-- A name that no device has. -/
theorem vfsGetroot_of_forall_notMem (h : ∀ kd ∈ devs, n ∉ kd.names) :
    vfsGetroot devs n = .ok (.error .enodev) := by
  induction devs with
  | nil => rfl
  | cons kd devs ih =>
    rw [vfsGetroot_cons_of_notMem (h kd List.mem_cons_self)]
    exact ih fun k hk => h k (List.mem_cons_of_mem kd hk)

/-- What `vfs_getroot` finds at a device that has the name, it finds wherever that is the first. -/
theorem vfsGetroot_cons_of_mem (hn : n ∈ kd.names) :
    vfsGetroot (kd :: devs) n = vfsGetroot [kd] n := by
  rw [vfsGetroot, vfsGetroot]
  cases hr : kd.getroot n with
  | error e => rfl
  | ok r =>
    cases r with
    | none => exact absurd hn (KnownDev.getroot_eq_none.mp hr)
    | some r => rfl

/-- A name of one device alone. -/
theorem vfsGetroot_of_mem (h : NamesApart devs) (hk : kd ∈ devs) (hn : n ∈ kd.names) :
    vfsGetroot devs n = vfsGetroot [kd] n := by
  induction devs with
  | nil => cases hk
  | cons k devs ih =>
    obtain ⟨hhead, htail⟩ := List.pairwise_cons.mp h
    rcases List.mem_cons.mp hk with rfl | hk
    · exact vfsGetroot_cons_of_mem hn
    · rw [vfsGetroot_cons_of_notMem fun hkn => hhead kd hk n hkn hn]
      exact ih htail hk

/-- **The order of the devices does not matter** for `vfs_getroot` when no name is shared. -/
theorem vfsGetroot_perm (h : NamesApart devs) (hp : devs.Perm devs') (n : Str) :
    vfsGetroot devs n = vfsGetroot devs' n := by
  by_cases hn : ∃ kd ∈ devs, n ∈ kd.names
  · obtain ⟨kd, hk, hn⟩ := hn
    rw [vfsGetroot_of_mem h hk hn, vfsGetroot_of_mem (h.perm hp) (hp.mem_iff.mp hk) hn]
  · push Not at hn
    rw [vfsGetroot_of_forall_notMem hn,
      vfsGetroot_of_forall_notMem fun kd hk => hn kd (hp.mem_iff.mpr hk)]

/-! ## The calls -/

theorem samestring_eq_true {a b : Option Str} :
    samestring a b = true ↔ ∃ n, a = some n ∧ b = some n := by
  unfold samestring
  cases a <;> cases b <;> grind

theorem samestring3_eq_true {a b c d : Option Str} :
    samestring3 a b c d = true ↔ ∃ n, a = some n ∧ (b = some n ∨ c = some n ∨ d = some n) := by
  unfold samestring3
  simp only [Bool.or_eq_true, samestring_eq_true]
  grind

/-- **`badnames` checks all the names** of all the devices. -/
theorem badnames_eq_true {n1 n2 n3 : Option Str} :
    badnames devs n1 n2 n3 = true ↔
      ∃ kd ∈ devs, ∃ n ∈ kd.names, n1 = some n ∨ n2 = some n ∨ n3 = some n := by
  unfold badnames
  simp only [List.any_eq_true, Bool.or_eq_true, samestring3_eq_true, KnownDev.mem_names]
  grind

theorem mem_setFs {fs : Option KdFs} (hi : devs[i]? = some kd) (hk : kd' ∈ setFs devs i fs) :
    kd' ∈ devs ∨ kd' = { kd with fs := fs } := by
  obtain ⟨j, hj⟩ := List.mem_iff_getElem?.mp hk
  unfold setFs at hj
  rw [List.getElem?_modify] at hj
  obtain ⟨k, hkj, rfl⟩ := Option.map_eq_some_iff.mp hj
  by_cases hij : i = j
  · subst hij
    cases hi.symm.trans hkj
    rw [if_pos rfl]
    exact .inr rfl
  · rw [if_neg hij]
    exact .inl (List.mem_of_getElem? hkj)

/-- **A device changes in place**: each of its names is an old one of its own or is not taken. -/
theorem NamesApart.setFs (h : NamesApart devs) (hi : devs[i]? = some kd) {fs : Option KdFs}
    (hnew : ∀ n ∈ ({ kd with fs := fs } : KnownDev).names,
      n ∈ kd.names ∨ ∀ k ∈ devs.eraseIdx i, n ∉ k.names) : NamesApart (setFs devs i fs) := by
  induction devs generalizing i with
  | nil => cases hi
  | cons k devs ih =>
    obtain ⟨hhead, htail⟩ := List.pairwise_cons.mp h
    cases i with
    | zero =>
      cases hi
      refine List.pairwise_cons.mpr ⟨fun b hb n hn => ?_, htail⟩
      rcases hnew n hn with hold | hfresh
      · exact hhead b hb n hold
      · exact hfresh b hb
    | succ i =>
      have hi : devs[i]? = some kd := hi
      refine List.pairwise_cons.mpr ⟨fun b hb n hn => ?_, ih htail hi fun n hn => ?_⟩
      · rcases mem_setFs hi hb with hb | rfl
        · exact hhead b hb n hn
        · intro hb
          rcases hnew n hb with hold | hfresh
          · exact hhead kd (List.mem_of_getElem? hi) n hn hold
          · exact hfresh k List.mem_cons_self hn
      · exact (hnew n hn).imp id fun hfresh b hb => hfresh b (List.mem_cons_of_mem k hb)

/-- Giving up a file system, or taking the device for swap, brings no name. -/
theorem KnownDev.names_subset {fs : Option KdFs} (hfs : ∀ f, fs ≠ some (.fs f)) :
    ∀ n ∈ ({ kd with fs := fs } : KnownDev).names, n ∈ kd.names := by
  intro n hn
  rw [KnownDev.mem_names] at hn ⊢
  rcases hn with hn | hn | hn
  · exact .inl hn
  · exact .inr (.inl hn)
  · cases fs with
    | none => cases hn
    | some k =>
      cases k with
      | swap => cases hn
      | fs f => exact absurd rfl (hfs f)

/-- **A device is added** only when its names are not taken. -/
theorem vfsDoadd_namesApart (h : NamesApart devs) {mountable : Bool} {dev : Option DeviceId}
    {fs : Option Fs} {vnode : Option VnodeId} {grown : Bool} :
    NamesApart (vfsDoadd devs devname mountable dev fs vnode grown).2 := by
  unfold vfsDoadd
  cases vnode with
  | none => exact h
  | some v =>
    dsimp only
    generalize (if mountable then some (mkrawname devname) else none : Option Str) = rawname
    split_ifs with hbad hgrown
    · exact h
    · refine List.pairwise_append.mpr ⟨h, List.pairwise_singleton .., fun a ha b hb n hn hnb => ?_⟩
      rw [List.mem_singleton.mp hb, KnownDev.mem_names] at hnb
      refine hbad (badnames_eq_true.mpr ⟨a, ha, n, hn, ?_⟩)
      rcases hnb with rfl | hraw | hvol
      · exact .inl rfl
      · exact .inr (.inl hraw)
      · refine .inr (.inr ?_)
        cases fs with
        | none => cases hvol
        | some f => exact hvol
    · exact h

theorem vfsMount_namesApart (h : NamesApart devs) {mountfunc : DeviceId → Except VfsErr Fs}
    (hfresh : FreshVolume devs (.mount devname mountfunc)) {e : Option VfsErr}
    (hs : vfsMount devs devname mountfunc = .ok (e, devs')) : NamesApart devs' := by
  unfold vfsMount at hs
  dsimp only [FreshVolume] at hfresh
  cases hf : findmount devs devname with
  | none =>
    rw [hf] at hs
    cases hs
    exact h
  | some r =>
    obtain ⟨i, name, rawname, device, vnode, fs⟩ := r
    obtain ⟨hi, -, -⟩ := findmount_eq_some hf
    rw [hf] at hs hfresh
    dsimp only at hs
    by_cases hbusy : fs ≠ none
    · rw [if_pos hbusy] at hs
      cases hs
      exact h
    · obtain rfl := not_not.mp hbusy
      cases device with
      | none => cases hs
      | some dev =>
        dsimp only [if_neg hbusy] at hs hfresh
        cases hm : mountfunc dev with
        | error e =>
          rw [hm] at hs
          cases hs
          exact h
        | ok f =>
          rw [hm] at hs hfresh
          cases hs
          refine h.setFs hi fun n hn => ?_
          rw [KnownDev.mem_names] at hn
          rcases hn with hn | hn | hn
          · exact .inl (KnownDev.mem_names.mpr (.inl hn))
          · exact .inl (KnownDev.mem_names.mpr (.inr (.inl hn)))
          · exact .inr (hfresh n hn)

theorem vfsSwapon_eq_ok {copied : Bool} {r : Except VfsErr VnodeId}
    (hs : vfsSwapon devs devname copied = .ok (r, devs')) :
    devs' = devs ∨ ∃ i kd, devs[i]? = some kd ∧ devs' = setFs devs i (some .swap) := by
  unfold vfsSwapon at hs
  by_cases hcopied : (hasColon devname && !copied) = true
  · rw [if_pos hcopied] at hs
    cases hs
    exact .inl rfl
  · rw [if_neg hcopied] at hs
    cases hf : findmount devs (if hasColon devname then devname.dropLast else devname) with
    | none =>
      rw [hf] at hs
      cases hs
      exact .inl rfl
    | some r =>
      obtain ⟨i, kd⟩ := r
      rw [hf] at hs
      dsimp only at hs
      by_cases hbusy : kd.fs ≠ none
      · rw [if_pos hbusy] at hs
        cases hs
        exact .inl rfl
      · rw [if_neg hbusy, bind_eq_ok] at hs
        obtain ⟨_, -, hs⟩ := hs
        cases hs
        exact .inr ⟨i, kd, (findmount_eq_some hf).1, rfl⟩

theorem vfsUnmount_eq_ok {fsopSync fsopUnmount : Fs → Option VfsErr} {e : Option VfsErr}
    (hs : vfsUnmount devs devname fsopSync fsopUnmount = .ok (e, devs')) :
    devs' = devs ∨ ∃ i kd, devs[i]? = some kd ∧ devs' = setFs devs i none := by
  unfold vfsUnmount at hs
  cases hf : findmount devs devname with
  | none =>
    rw [hf] at hs
    cases hs
    exact .inl rfl
  | some r =>
    obtain ⟨i, kd⟩ := r
    rw [hf] at hs
    dsimp only at hs
    split at hs
    · obtain ⟨_, -, hs⟩ := bind_eq_ok.mp hs
      split at hs
      · cases hs
        exact .inl rfl
      · split at hs <;> cases hs
        · exact .inl rfl
        · exact .inr ⟨i, kd, (findmount_eq_some hf).1, rfl⟩
    · cases hs
      exact .inl rfl

/-- **Every call keeps the names apart** unless it mounts a volume whose name is taken. -/
theorem VfsListOp.step_namesApart {op : VfsListOp} (h : NamesApart devs)
    (hfresh : FreshVolume devs op) (hs : VfsListOp.step devs op = .ok devs') :
    NamesApart devs' := by
  cases op with
  | adddev devname dev mountable vnode grown =>
    cases hs
    exact vfsDoadd_namesApart h
  | addfs devname fs vnode grown =>
    cases hs
    exact vfsDoadd_namesApart h
  | mount devname mountfunc =>
    obtain ⟨⟨e, _⟩, hm, hs⟩ := bind_eq_ok.mp hs
    cases hs
    exact vfsMount_namesApart h hfresh hm
  | swapon devname copied =>
    obtain ⟨⟨r, _⟩, hm, hs⟩ := bind_eq_ok.mp hs
    cases hs
    rcases vfsSwapon_eq_ok hm with rfl | ⟨i, kd, hi, rfl⟩
    · exact h
    · exact h.setFs hi fun n hn => .inl (KnownDev.names_subset (by rintro f ⟨⟩) n hn)
  | unmount devname fsopSync fsopUnmount =>
    obtain ⟨⟨e, _⟩, hm, hs⟩ := bind_eq_ok.mp hs
    cases hs
    rcases vfsUnmount_eq_ok hm with rfl | ⟨i, kd, hi, rfl⟩
    · exact h
    · exact h.setFs hi fun n hn => .inl (KnownDev.names_subset (by rintro f ⟨⟩) n hn)

/-- **No name is shared** after any sequence of calls in which no mounted volume brings a name that
another device has, and `vfs_getroot` then finds the same whatever the order of the devices. -/
theorem namesApart_run {ops : List VfsListOp} (h : run VfsListOp.step [] ops = .ok devs)
    (hfresh : Along VfsListOp.step FreshVolume [] ops) :
    NamesApart devs ∧ ∀ devs', devs.Perm devs' → ∀ n, vfsGetroot devs n = vfsGetroot devs' n := by
  have hapart : NamesApart devs :=
    run_inv_along VfsListOp.step (fun _ _ _ hi hc hs => VfsListOp.step_namesApart hi hc hs)
      List.Pairwise.nil hfresh h
  exact ⟨hapart, fun _ hp n => vfsGetroot_perm hapart hp n⟩

end Names

/-- Two disks, and a volume of the name `volname` mounted on the second one. -/
def twoDisks (volname : Str) : List VfsListOp :=
  [.adddev "lhd0".toList 0 true (some 10) true, .adddev "lhd1".toList 1 true (some 11) true,
    .mount "lhd1".toList fun _ => .ok ⟨0, some volname⟩]

/-- A volume with a name of its own. -/
theorem namesApart_twoDisks : ∃ devs, run VfsListOp.step [] (twoDisks "work".toList) = .ok devs ∧
    devs.map KnownDev.names = [["lhd0".toList, "lhd0raw".toList],
      ["lhd1".toList, "lhd1raw".toList, "work".toList]] ∧
    NamesApart devs ∧ ∀ devs', devs.Perm devs' → ∀ n, vfsGetroot devs n = vfsGetroot devs' n := by
  obtain ⟨devs, hdevs, hnames⟩ := exists_ok_of_toOption
    (show (run VfsListOp.step [] (twoDisks "work".toList)).toOption.map
      (fun devs => devs.map KnownDev.names) = some [["lhd0".toList, "lhd0raw".toList],
        ["lhd1".toList, "lhd1raw".toList, "work".toList]] by decide +kernel)
  exact ⟨devs, hdevs, hnames, namesApart_run hdevs (by decide +kernel)⟩

/-- A volume that is called like the first disk: `vfs_mount` takes it, and what `vfs_getroot` finds
under that name depends on the order of the disks. -/
theorem not_namesApart_twoDisks : ∃ devs, run VfsListOp.step [] (twoDisks "lhd0".toList) = .ok devs ∧
    ¬ NamesApart devs ∧ devs.Perm devs.reverse ∧
    vfsGetroot devs "lhd0".toList = .ok (.error .enxio) ∧
    vfsGetroot devs.reverse "lhd0".toList = .ok (.ok (.root ⟨0, some "lhd0".toList⟩)) := by
  refine ⟨_, rfl, fun h => ?_, (List.reverse_perm _).symm, rfl, rfl⟩
  exact List.rel_of_pairwise_cons h List.mem_cons_self "lhd0".toList (by decide) (by decide)

end Os161
