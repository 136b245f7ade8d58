import Os161.Sfs.Sound

set_option autoImplicit false

/-!
# The operations on names

`sfs_creat`, `sfs_link`, `sfs_remove`, `sfs_rename` and `sfs_lookup` on a sound volume, beside the same
operations on a finite map.

* `NameOp`: the operations; `nameStep`: what they do to a finite map.
* `NameOp.Post`: the volume is sound again, and it is the finite map unless there is no space or no
  memory.
* **`returns_nameOp`**: each operation meets `Post`.
-/

namespace Os161

open Buffer SfsFs

/-- The operations of a directory. -/
inductive NameOp
  | creat (name : CString) (excl : Bool)
  | link (name : CString) (file : ℕ)
  | remove (name : CString)
  | rename (n1 n2 : CString)
  | lookup (path : CString)

/-- What an operation returns. -/
inductive Reply
  | done
  | inode (ino : ℕ)
  | io (e : Option FsErr) (u : Uio)

/-- The call of an operation of the directory `dir`. -/
def NameOp.prog (dir : ℕ) : NameOp → SfsM Reply
  | .creat name excl => do return .inode (← dirop dir (sfsCreat dir name excl))
  | .link name file => do dirop dir (sfsLink dir name file); return .done
  | .remove name => do dirop dir (sfsRemove dir name); return .done
  | .rename n1 n2 => do dirop dir (sfsRename dir n1 n2); return .done
  | .lookup path => do return .inode (← dirop dir (sfsLookup dir path))

/-- Why a finite map does not take a new name. -/
def linkError (m : List UInt8 → Option ℕ) (name : List UInt8) : Option FsErr :=
  if m name ≠ none then some .eexist
  else if sfsNamelen < name.length + 1 then some .enametoolong
  else none

/-- **The operations on a finite map**: the result, and the map afterwards. A new file is `fresh`. -/
def nameStep (m : List UInt8 → Option ℕ) (fresh : ℕ) :
    NameOp → Except FsErr Reply × (List UInt8 → Option ℕ)
  | .creat name excl =>
    match m name.bytes with
    | some ino => if excl then (.error .eexist, m) else (.ok (.inode ino), m)
    | none =>
      match linkError m name.bytes with
      | some e => (.error e, m)
      | none => (.ok (.inode fresh), Function.update m name.bytes (some fresh))
  | .link name file =>
    if file = sfsRootdirIno then (.error .einval, m)
    else
      match linkError m name.bytes with
      | some e => (.error e, m)
      | none => (.ok .done, Function.update m name.bytes (some file))
  | .remove name =>
    match m name.bytes with
    | none => (.error .enoent, m)
    | some _ => (.ok .done, Function.update m name.bytes none)
  | .rename n1 n2 =>
    match m n1.bytes with
    | none => (.error .enoent, m)
    | some ino =>
      match linkError m n2.bytes with
      | some e => (.error e, m)
      | none =>
        (.ok .done, Function.update (Function.update m n2.bytes (some ino)) n1.bytes none)
  | .lookup path =>
    match m path.bytes with
    | none => (.error .enoent, m)
    | some ino => (.ok (.inode ino), m)

/-- There is no memory for a vnode. -/
def NoMemory (v : Vol) (e : FsErr) : Prop :=
  e = .enomem ∧ (v.fs.memory 0 = false ∨ v.fs.memory 1 = false)

/-- There are at most two free blocks, or the directory has no room for a slot. -/
def NoSpace (v : Vol) (e : FsErr) : Prop :=
  e = .enospc ∧ v.freeBlocks.card ≤ 2 ∨
    e = .efbig ∧ v.nslots = maxSlots ∧ ∀ k < v.nslots, v.slot k ≠ none

/-- What an operation can run short of. -/
def NameOp.Short (v : Vol) (e : FsErr) : NameOp → Prop
  | .creat .. => NoMemory v e ∨ NoSpace v e
  | .link .. => NoSpace v e
  | .remove .. => NoMemory v e
  | .rename .. => NoMemory v e ∨ NoSpace v e
  | .lookup .. => NoMemory v e

/-- The vnodes that are passed are loaded. -/
def NameOp.Valid (v : Vol) : NameOp → Prop
  | .link _ file => file ∈ v.fs.vnodes
  | _ => True

/-- **What an operation does**: it is the operation on the finite map, or runs short of something; if
it fails, no name and no file changes, and there is a new slot only if no other is empty. -/
structure NameOp.Post (op : NameOp) (v : Vol) (r : Except FsErr Reply) (w : Vol) : Prop where
  sound : w.Sound
  step : (∃ fresh, ¬ v.IsInode fresh ∧ nameStep v.names fresh op = (r, w.names)) ∨
    ∃ e, r = .error e ∧ op.Short v e
  failed : ∀ e, r = .error e → w.names = v.names ∧ ∀ j, v.IsInode j → w.file j = v.file j
  slots : w.nslots = v.nslots ∨ w.nslots = v.nslots + 1 ∧ ∀ k < v.nslots, v.slot k ≠ none

/-- What is proved of an operation: it meets `Post`, and keeps the end of the name of the volume. -/
structure NameOp.Done (op : NameOp) (v : Vol) (r : Except FsErr Reply) (w : Vol) : Prop
    extends op.Post v r w where
  ended : v.Ended → w.Ended

/-- **What a call returns**: an operation of a vnode that is no directory fails. -/
def NameOp.CallPost (dir : ℕ) (op : NameOp) (v : Vol) (r : Except FsErr Reply) (w : Vol) : Prop :=
  if dir = sfsRootdirIno then op.Post v r w else r = .error .enotdir ∧ w = v

namespace SfsFs

open Vol

section Lookup

variable {β : Type} {u v w : Vol} {op : NameOp} {ino k b : ℕ} {name : CString} {e : FsErr}
  {r : Except FsErr Reply}

/-- The superblock is no inode. -/
theorem zero_not_inode (h : v.Sound) : ¬ v.IsInode 0 := fun h0 =>
  h.physical.isMeta_ne_inode h0 (.inl rfl : v.IsMeta 0) rfl

/-- The operation changes no file. -/
theorem NameOp.Done.same (h : v.Sound) (hw : w.Sound) (hs : Same v w)
    (hstep : nameStep v.names 0 op = (r, v.names) ∨ ∃ e, r = .error e ∧ op.Short v e) :
    op.Done v r w where
  sound := hw
  step := by
    rw [hs.names]
    exact hstep.imp_left fun he => ⟨0, zero_not_inode h, he⟩
  failed _ _ := ⟨hs.names, hs.file⟩
  slots := .inl (slot_congr hs.rootdir).2
  ended := hs.ended

/-- The operation begins with a step that changes no file. -/
theorem NameOp.Done.start (h : op.Done u r w) (hs : Same v u) (hfree : u.freeBlocks = v.freeBlocks)
    (hmem : u.fs.memory = v.fs.memory) : op.Done v r w where
  sound := h.sound
  step := by
    obtain ⟨hslot, hn⟩ := slot_congr hs.rootdir
    have hshort : ∀ e, NameOp.Short u e op = NameOp.Short v e op := fun e => by
      unfold NameOp.Short NoMemory NoSpace
      rw [hfree, hmem, hslot, hn]
    have hstep := h.step
    simp only [hs.isInode, hs.names, hshort] at hstep
    exact hstep
  failed e he := by
    obtain ⟨hnames, hfile⟩ := h.failed e he
    exact ⟨hnames.trans hs.names, fun j hj =>
      (hfile j (by rw [hs.isInode]; exact hj)).trans (hs.file j hj)⟩
  slots := by
    obtain ⟨hslot, hn⟩ := slot_congr hs.rootdir
    have hslots := h.slots
    rwa [hslot, hn] at hslots
  ended := h.ended ∘ hs.ended

theorem returns_changeLinkcount {f : ℕ → ℕ} {g : Unit → SfsM β} {R : Except FsErr β → Vol → Prop} :
    Returns (changeLinkcount ino f >>= g) v R ↔
      Returns (g ()) (v.relinked ino (f (sfiLinkcount (v.fs.inode ino)))) R := returns_modify

/-- An operation of the root directory. -/
theorem returns_dirop (h : v.Sound) {dir : ℕ} (hload : dir ∈ v.fs.vnodes) {x : SfsM β}
    {Q : Except FsErr β → Vol → Prop} : Returns (dirop dir x) v Q ↔
      if dir = sfsRootdirIno then Returns x v Q else Q (.error .enotdir) v := by
  unfold dirop
  rw [returns_get, type_inode hload]
  by_cases hdir : dir = sfsRootdirIno
  · rw [if_pos hdir, if_pos (by rw [hdir]; exact h.listed.dir)]
  · rw [if_neg hdir, if_neg fun ht => hdir (h.only dir (isInode_of_mem hload) ht), returns_throw]

/-- **The search for a name** on a sound volume. -/
theorem returns_findname (h : v.Sound) (hload : sfsRootdirIno ∈ v.fs.vnodes) (name : CString) :
    Returns (sfsDirFindname sfsRootdirIno name) v (Ends (fun scan w => w.Sound ∧ Same v w ∧
      w.freeBlocks = v.freeBlocks ∧ w.fs.memory = v.fs.memory ∧ w.fs.vnodes = v.fs.vnodes ∧
      Scanned v name.bytes v.nslots scan) fun _ _ => False) := by
  refine (returns_dirFindname h.physical h.listed hload name).mono ?_
  rintro (e | scan) w hw
  · exact hw
  · obtain ⟨hk, hfm, hs⟩ := hw
    refine ⟨h.same (.of_kept hk) hk.physical, .of_kept hk, ?_, hk.touch.memory, hk.touch.vnodes, hs⟩
    unfold freeBlocks
    rw [hfm, hk.touch.nblocks]

/-- **An inode is loaded** on a sound volume. -/
theorem returns_load (h : v.Sound) (hino : v.IsInode ino) :
    Returns (sfsLoadvnode ino sfsTypeInval) v (Ends
      (fun _ w => w.Sound ∧ Same v w ∧ ino ∈ w.fs.vnodes ∧ w.freeBlocks = v.freeBlocks ∧
        ∀ j, j ≠ ino → (j ∈ w.fs.vnodes ↔ j ∈ v.fs.vnodes))
      fun e w => w.Sound ∧ Same v w ∧ NoMemory v e) := by
  refine (returns_loadvnode h.physical hino).mono ?_
  rintro (e | _) w hw
  · obtain ⟨hs, hvn, he⟩ := hw
    exact ⟨h.same (.of_steady hs hvn) hs.physical, .of_steady hs hvn, he⟩
  · obtain ⟨hl, hload⟩ := hw
    have hs := Same.of_loaded hl hino hload
    exact ⟨h.same hs hl.physical, hs, hload, hl.free, hl.vnodes⟩

/-- What `sfs_lookonce` returns. -/
def LookPost (v : Vol) (name : CString) : Except FsErr (ℕ × ℕ) → Vol → Prop :=
  Ends (fun p w => w.Sound ∧ Same v w ∧ w.freeBlocks = v.freeBlocks ∧ v.names name.bytes = some p.1 ∧
      p.1 ∈ w.fs.vnodes ∧ sfsRootdirIno ∈ w.fs.vnodes ∧ p.2 < v.nslots ∧
      v.slot p.2 = some (name.bytes, p.1))
    fun e w => w.Sound ∧ Same v w ∧ (v.names name.bytes = none ∧ e = .enoent ∨
      (∃ ino, v.names name.bytes = some ino) ∧ NoMemory v e)

/-- **`sfs_lookonce`.** -/
theorem returns_lookonce (h : v.Sound) (hload : sfsRootdirIno ∈ v.fs.vnodes) (name : CString) :
    Returns (sfsLookonce sfsRootdirIno name) v (LookPost v name) := by
  unfold sfsLookonce
  refine (returns_findname h hload name).bind ?_
  rintro (e | scan) u hu
  · exact hu.elim
  obtain ⟨hsound, hs, hfree, hmem, hvn, hscan⟩ := hu
  have hnames := hscan.names h.listed
  change Returns _ u _
  beta_reduce
  cases hf : scan.found with
  | none =>
    rw [hf] at hnames
    exact returns_throw.mpr ⟨hsound, hs, .inl ⟨hnames, rfl⟩⟩
  | some p =>
    obtain ⟨k, ino⟩ := p
    rw [hf] at hnames
    replace hnames : v.names name.bytes = some ino := hnames
    obtain ⟨hk, hslot⟩ := (hscan.found k ino).mp hf
    have hino : u.IsInode ino := by
      rw [hs.isInode]
      exact isInode_of_name hnames
    refine (returns_load hsound hino).bind ?_
    rintro (e | _) w hw
    · obtain ⟨hsound', hs', he, hm⟩ := hw
      rw [hmem] at hm
      exact ⟨hsound', hs.trans hs', .inr ⟨⟨ino, hnames⟩, he, hm⟩⟩
    · obtain ⟨hsound', hs', hloadw, hfree', hvn'⟩ := hw
      have hroot := h.name_ne_root hnames
      have hsame := hs.trans hs'
      have hlink : sfiLinkcount (w.fs.inode ino) ≠ 0 := by
        rw [linkcount_inode hloadw, hsound'.linkcount ino (isInode_of_mem hloadw) hroot, hsame.links]
        exact Nat.pos_iff_ne_zero.mp (h.links_pos.mpr ⟨_, hnames⟩)
      refine returns_get.mpr ?_
      rw [if_neg hlink]
      refine returns_pure.mpr ⟨hsound', hsame, hfree'.trans hfree, hnames, hloadw, ?_, hk, hslot⟩
      rw [hvn' _ hroot.symm, hvn]
      exact hload

end Lookup

section Names

variable {u v w : Vol} {ino k : ℕ} {name n1 n2 : CString} {e : FsErr}

/-- A file that is loaded has got a name, in slot `k`, and a link. -/
structure Linked (v : Vol) (name : CString) (ino k : ℕ) (u : Vol) : Prop where
  sound : u.Sound
  names : u.names = Function.update v.names name.bytes (some ino)
  isInode : u.IsInode = v.IsInode
  vnodes : u.fs.vnodes = v.fs.vnodes
  empty : k < v.nslots → v.slot k = none
  lt : k < u.nslots
  slot : u.slot k = some (name.bytes, ino)
  other : ∀ j, j ≠ k → j < v.nslots → u.slot j = v.slot j
  slots : u.nslots = v.nslots ∨ u.nslots = v.nslots + 1 ∧ ∀ k < v.nslots, v.slot k ≠ none
  ended : v.Ended → u.Ended

/-- **`sfs_dir_link`** on a sound volume, before the link is counted. -/
theorem returns_linkName (h : v.Sound) (hload : sfsRootdirIno ∈ v.fs.vnodes) (hino : ino ∈ v.fs.vnodes)
    (hroot : ino ≠ sfsRootdirIno) (name : CString) : Returns (sfsDirLink sfsRootdirIno name ino) v (Ends
      (fun k w => linkError v.names name.bytes = none ∧
        Linked v name ino k (w.relinked ino (sfiLinkcount (w.fs.inode ino) + 1)))
      fun e w => w.Sound ∧ Same v w ∧ w.fs.vnodes = v.fs.vnodes ∧
        (linkError v.names name.bytes = some e ∨ linkError v.names name.bytes = none ∧
          (e = .enospc ∧ v.freeBlocks.card ≤ 1 ∨
            e = .efbig ∧ v.nslots = maxSlots ∧ ∀ k < v.nslots, v.slot k ≠ none))) := by
  refine (returns_dirLink h.physical h.listed hload (isInode_of_mem hino) name).mono ?_
  rintro (e | k) w hw
  · obtain ⟨hk, he⟩ := hw
    refine ⟨h.same (.of_kept hk) hk.physical, .of_kept hk, hk.touch.vnodes, ?_⟩
    unfold linkError
    by_cases hnone : v.names name.bytes ≠ none
    · rw [if_pos hnone] at he ⊢
      exact .inl (congrArg some he.symm)
    · rw [if_neg hnone] at he ⊢
      by_cases hlong : sfsNamelen < name.bytes.length + 1
      · rw [if_pos hlong] at he ⊢
        exact .inl (congrArg some he.symm)
      · rw [if_neg hlong] at he ⊢
        exact .inr ⟨rfl, he⟩
  · obtain ⟨hnone, hlen, hs, hempty, hle, hfull⟩ := hw
    obtain ⟨hsound, hnames, hI, hvn, hslot, hn⟩ := Sound.put h hs hempty hnone hino hroot rfl
    have hsize := hs.change.size hle
    refine ⟨?_, hsound, hnames, hI, hvn, hempty, by rw [hn]; exact hs.change.lt,
      by rw [hslot]; exact hs.self,
      fun j hj hlt => by rw [hslot]; exact hs.change.other j hj hlt, ?_,
      hs.rewritten.touch.ended⟩
    · rw [linkError, if_neg (not_not.mpr hnone), if_neg (by omega)]
    · rw [hn, hsize]
      split_ifs with hlt
      · exact .inl rfl
      · exact .inr ⟨rfl, hfull (by omega)⟩

/-- **`sfs_lookup`.** -/
theorem returns_lookup (h : v.Sound) (hload : sfsRootdirIno ∈ v.fs.vnodes) {path : CString} :
    Returns (do return Reply.inode (← sfsLookup sfsRootdirIno path)) v
      ((NameOp.lookup path).Done v) := by
  unfold sfsLookup
  rw [returns_bind, returns_get, if_neg (by rw [type_inode hload, h.listed.dir]; decide)]
  refine (returns_lookonce h hload path).bind ?_
  rintro (e | ⟨ino, k⟩) w hw
  · obtain ⟨hw, hs, he⟩ := hw
    refine NameOp.Done.same h hw hs (he.imp (fun ⟨hno, he⟩ => ?_) fun ⟨_, hm⟩ => ⟨e, rfl, hm⟩)
    rw [nameStep, hno, he]
  · obtain ⟨hw, hs, -, hname, -⟩ := hw
    refine returns_pure.mpr (returns_pure.mpr (NameOp.Done.same h hw hs (.inl ?_)))
    rw [nameStep, hname]

/-- **`sfs_link`.** -/
theorem returns_link (h : v.Sound) (hload : sfsRootdirIno ∈ v.fs.vnodes) (hino : ino ∈ v.fs.vnodes) :
    Returns (do sfsLink sfsRootdirIno name ino; return Reply.done) v
      ((NameOp.link name ino).Done v) := by
  unfold sfsLink
  rw [returns_bind, returns_get, type_inode hino]
  by_cases hroot : ino = sfsRootdirIno
  · rw [if_pos (by rw [hroot]; exact h.listed.dir)]
    refine returns_throw.mpr (NameOp.Done.same h h (.refl v) (.inl ?_))
    rw [nameStep, if_pos hroot]
  · rw [if_neg fun ht => hroot (h.only ino (isInode_of_mem hino) ht)]
    refine (returns_linkName h hload hino hroot name).bind ?_
    rintro (e | k) w hw
    · obtain ⟨hw, hs, -, he⟩ := hw
      refine NameOp.Done.same h hw hs (he.imp (fun he => ?_) fun ⟨_, he⟩ => ⟨e, rfl, ?_⟩)
      · rw [nameStep, if_neg hroot, he]
      · exact he.imp_left fun he => ⟨he.1, by omega⟩
    · obtain ⟨hno, hl⟩ := hw
      refine returns_modify_last.mpr (returns_pure.mpr ⟨⟨hl.sound, .inl ⟨0, zero_not_inode h, ?_⟩,
        (fun _ he => by cases he), hl.slots⟩, hl.ended⟩)
      rw [nameStep, if_neg hroot, hno]
      exact congrArg (Prod.mk (Except.ok Reply.done)) hl.names.symm

/-- **A reference is given up** on a sound volume, to an inode that has names. -/
theorem returns_drop_named (h : v.Sound) (hload : ino ∈ v.fs.vnodes) {name : List UInt8}
    (hname : v.names name = some ino) : Returns (vnodeDecref ino) v
      (Ends (fun _ w => w.Sound ∧ Same v w) fun _ _ => False) := by
  have hroot := h.name_ne_root hname
  refine (returns_decref h.physical hload fun he => absurd he hroot).mono ?_
  rintro (e | _) w hw
  · exact hw
  · obtain ⟨hsound, -, hI⟩ := h.released hload hw
    have hkeep : Remains v.IsInode ino v w = v.IsInode := by
      funext j
      refine propext (and_iff_left ?_)
      rintro ⟨-, hl, -⟩
      rw [h.linkcount ino (isInode_of_mem hload) hroot] at hl
      exact absurd (h.links_pos.mpr ⟨name, hname⟩) (by omega)
    refine ⟨hsound, fun j hj => hw.file j ?_, hI.trans hkeep, hw.ended⟩
    rw [hkeep]
    exact hj

/-- **`sfs_remove`.** -/
theorem returns_remove (h : v.Sound) (hload : sfsRootdirIno ∈ v.fs.vnodes) :
    Returns (do sfsRemove sfsRootdirIno name; return Reply.done) v ((NameOp.remove name).Done v) := by
  unfold sfsRemove
  rw [returns_bind]
  refine (returns_lookonce h hload name).bind ?_
  rintro (e | ⟨ino, k⟩) w hw
  · obtain ⟨hw, hs, he⟩ := hw
    refine NameOp.Done.same h hw hs (he.imp (fun ⟨hno, he⟩ => ?_) fun ⟨_, hm⟩ => ⟨e, rfl, hm⟩)
    rw [nameStep, hno, he]
  obtain ⟨hw, hs, -, hname, hino, hloadw, hk, hslot⟩ := hw
  obtain ⟨hslots, hn⟩ := slot_congr hs.rootdir
  rw [← hn] at hk
  rw [← hslots] at hslot
  change Returns (status (sfsDirUnlink sfsRootdirIno k) >>= _) w _
  rw [returns_bind, returns_status]
  refine (returns_dirUnlink hw.physical hw.listed hloadw hk hslot).mono ?_
  rintro (e | _) x hx
  · exact hx.elim
  replace hx : SlotSet w.IsInode k none w x := hx
  obtain ⟨hpos, hy, hnames, -, hvn, hnx⟩ := Sound.clear hw hx hk hslot hino rfl
  refine returns_get.mpr ((returns_kassert ?_).mpr (returns_changeLinkcount.mpr ?_))
  · exact hpos
  have hyended : x.Ended → (x.relinked ino (sfiLinkcount (x.fs.inode ino) - 1)).Ended := id
  generalize x.relinked ino (sfiLinkcount (x.fs.inode ino) - 1) = y at hy hnames hvn hnx hyended
  have hroot := h.name_ne_root hname
  refine (returns_decref hy.physical (by rw [hvn]; exact hino) fun he => absurd he hroot).mono ?_
  rintro (e | _) z hz
  · exact hz.elim
  obtain ⟨hz', hnames', hI⟩ := hy.released (by rw [hvn]; exact hino) hz
  have hdir : z.file sfsRootdirIno = y.file sfsRootdirIno := by
    refine hz.file _ ?_
    rw [← hI]
    exact isInode_root z
  refine returns_pure.mpr ⟨⟨hz', .inl ⟨0, zero_not_inode h, ?_⟩, (fun _ he => by cases he), .inl ?_⟩,
    hz.ended ∘ hyended ∘ hx.rewritten.touch.ended ∘ hs.ended⟩
  · rw [nameStep, hname, hnames', hnames, hs.names]
  · rw [(slot_congr hdir).2, hnx, hx.change.size (le_of_lt hk), if_pos hk, hn]

/-- The end of `sfs_rename`, when the file has the new name in slot `k'`. -/
theorem returns_renameUnlink {v' x : Vol} {k' : ℕ} (hv : v'.Sound)
    (hload : sfsRootdirIno ∈ v'.fs.vnodes) (hino : ino ∈ v'.fs.vnodes) (hk : k < v'.nslots)
    (hslot : v'.slot k = some (n1.bytes, ino))
    (hl : Linked v' n2 ino k' (x.relinked ino (sfiLinkcount (x.fs.inode ino) + 1))) :
    Returns (renameUnlink sfsRootdirIno ino k k') x (Ends (fun _ w => w.Sound ∧
      w.names = Function.update (Function.update v'.names n2.bytes (some ino)) n1.bytes none ∧
      (w.nslots = v'.nslots ∨ w.nslots = v'.nslots + 1 ∧ ∀ k < v'.nslots, v'.slot k ≠ none) ∧
      (v'.Ended → w.Ended)) fun _ _ => False) := by
  have hroot : ino ≠ sfsRootdirIno :=
    hv.name_ne_root ((SlotMap.lookup_eq_some hv.listed.distinct).mpr ⟨k, hk, hslot⟩)
  have hne : k ≠ k' := by
    rintro rfl
    rw [hl.empty hk] at hslot
    cases hslot
  unfold renameUnlink
  rw [returns_changeLinkcount]
  generalize x.relinked ino (sfiLinkcount (x.fs.inode ino) + 1) = u at hl
  have hku : k < u.nslots := by
    rcases hl.slots with hs | hs
    · rwa [hs]
    · rw [hs.1]
      omega
  have hslotu : u.slot k = some (n1.bytes, ino) := (hl.other k hne hk).trans hslot
  have hinou : ino ∈ u.fs.vnodes := by
    rw [hl.vnodes]
    exact hino
  rw [returns_bind, returns_status]
  refine (returns_dirUnlink hl.sound.physical hl.sound.listed (by rw [hl.vnodes]; exact hload) hku
    hslotu).mono ?_
  rintro (e | _) y hy
  · exact hy.elim
  replace hy : SlotSet u.IsInode k none u y := hy
  obtain ⟨hpos, hz, hnames, -, hvn, hny⟩ := Sound.clear hl.sound hy hku hslotu hinou rfl
  refine returns_get.mpr ((returns_kassert ?_).mpr (returns_changeLinkcount.mpr ?_))
  · exact hpos
  have hzended : y.Ended → (y.relinked ino (sfiLinkcount (y.fs.inode ino) - 1)).Ended := id
  generalize y.relinked ino (sfiLinkcount (y.fs.inode ino) - 1) = z at hz hnames hvn hny hzended
  have hname : z.names n2.bytes = some ino := by
    have hn : n2.bytes ≠ n1.bytes := fun he => by
      have h₁ : u.names n1.bytes = some ino :=
        (SlotMap.lookup_eq_some hl.sound.listed.distinct).mpr ⟨k, hku, hslotu⟩
      have hslot' := hl.slot
      rw [he] at hslot'
      exact hne (hl.sound.listed.distinct k k' _ _ _ hku hl.lt hslotu hslot')
    rw [hnames, Function.update_of_ne hn, hl.names, Function.update_self]
  refine (returns_drop_named hz (by rw [hvn]; exact hinou) hname).mono ?_
  rintro (e | _) w hw
  · exact hw
  · obtain ⟨hw, hs⟩ := hw
    refine ⟨hw, hs.names.trans (hnames.trans (by rw [hl.names])), ?_,
      hs.ended ∘ hzended ∘ hy.rewritten.touch.ended ∘ hl.ended⟩
    rw [(slot_congr hs.rootdir).2, hny, hy.change.size (le_of_lt hku), if_pos hku]
    exact hl.slots

/-- **`sfs_rename`.** -/
theorem returns_rename (h : v.Sound) (hload : sfsRootdirIno ∈ v.fs.vnodes) :
    Returns (do sfsRename sfsRootdirIno n1 n2; return Reply.done) v
      ((NameOp.rename n1 n2).Done v) := by
  unfold sfsRename
  rw [returns_bind, returns_kassert rfl]
  refine (returns_lookonce h hload n1).bind ?_
  rintro (e | ⟨ino, k⟩) w hw
  · obtain ⟨hw, hs, he⟩ := hw
    refine NameOp.Done.same h hw hs (he.imp (fun ⟨hno, he⟩ => ?_) fun ⟨_, hm⟩ => ⟨e, rfl, .inl hm⟩)
    rw [nameStep, hno, he]
  obtain ⟨hw, hs, hfree, hname, hino, hloadw, hk, hslot⟩ := hw
  obtain ⟨hslots, hn⟩ := slot_congr hs.rootdir
  have hroot := h.name_ne_root hname
  refine returns_get.mpr ((returns_kassert ?_).mpr ?_)
  · exact (type_inode hino).trans (hw.type (isInode_of_mem hino) hroot)
  rw [returns_bind, returns_attempt]
  refine (returns_linkName hw hloadw hino hroot n2).mono ?_
  rintro (e | k') x hx
  · -- the reference is given up
    obtain ⟨hx, hs', hvn, he⟩ := hx
    have hnamex : x.names n1.bytes = some ino := by rw [hs'.names, hs.names, hname]
    change Returns (vnodeDecref ino >>= fun _ => throw e) x _
    refine (returns_drop_named hx (by rw [hvn]; exact hino) hnamex).bind ?_
    rintro (e | _) z hz
    · exact hz.elim
    obtain ⟨hz, hs''⟩ := hz
    rw [hs.names, hfree, hn, hslots] at he
    refine returns_throw.mpr (NameOp.Done.same h hz ((hs.trans hs').trans hs'')
      (he.imp (fun he => ?_) fun ⟨_, he⟩ => ⟨e, rfl, .inr ?_⟩))
    · rw [nameStep, hname]
      simp only [he]
    · exact he.imp_left fun he => ⟨he.1, by omega⟩
  · obtain ⟨hno, hl⟩ := hx
    refine (returns_renameUnlink hw hloadw hino (by rw [hn]; exact hk) (by rw [hslots]; exact hslot)
      hl).mono ?_
    rintro (e | _) z hz
    · exact hz.elim
    obtain ⟨hz, hnames, hslots', hended⟩ := hz
    rw [hs.names] at hno hnames
    rw [hn, hslots] at hslots'
    refine returns_pure.mpr ⟨⟨hz, .inl ⟨0, zero_not_inode h, ?_⟩, (fun _ he => by cases he), hslots'⟩,
      hended ∘ hs.ended⟩
    rw [nameStep, hname, hnames]
    simp only [hno]

/-- `sfs_creat` for a name that does not exist. -/
theorem returns_creatNew (h : v.Sound) (hload : sfsRootdirIno ∈ v.fs.vnodes) (excl : Bool)
    (hno : v.names name.bytes = none) :
    Returns (do return Reply.inode (← creatNew sfsRootdirIno name)) v
      ((NameOp.creat name excl).Done v) := by
  unfold creatNew
  rw [returns_bind]
  refine (returns_makeobj h.physical).bind ?_
  rintro (e | b) w hw
  · obtain ⟨hs, hvn, he⟩ := hw
    refine NameOp.Done.same h (h.same (.of_steady hs hvn) hs.physical) (.of_steady hs hvn)
      (.inr ⟨e, rfl, he.symm.imp id fun he => .inl ⟨he.1, by omega⟩⟩)
  obtain ⟨hnew, hp, hfile, htype, hlink, hvn, hcard, hended⟩ := hw
  obtain ⟨hw, hnames, hI⟩ := h.made hnew hp hfile htype hlink hvn
  obtain ⟨hslots, hn⟩ := slot_congr (hfile _ (isInode_root v))
  have hloadw : sfsRootdirIno ∈ w.fs.vnodes := by
    rw [hvn]
    exact List.mem_append_left _ hload
  have hb : b ∈ w.fs.vnodes := by
    rw [hvn]
    exact List.mem_append_right _ (List.mem_singleton_self b)
  have hroot : b ≠ sfsRootdirIno := fun he => hnew (he ▸ isInode_root v)
  change Returns (attempt (sfsDirLink sfsRootdirIno name b) >>= _) w _
  rw [returns_bind, returns_attempt]
  refine (returns_linkName hw hloadw hb hroot name).mono ?_
  rintro (e | k) x hx
  · -- the new file has no name, and is given up
    obtain ⟨hx, hs, hvnx, he⟩ := hx
    have hbx : b ∈ x.fs.vnodes := by
      rw [hvnx]
      exact hb
    change Returns (vnodeDecref b >>= fun _ => throw e) x _
    refine (returns_decref hx.physical hbx fun he => absurd he hroot).bind ?_
    rintro (e | _) z hz
    · exact hz.elim
    replace hz : Released x.IsInode b x z := hz
    obtain ⟨hz', hnamesz, -⟩ := hx.released hbx hz
    have hkeep : ∀ j, v.IsInode j → z.file j = v.file j := fun j hj => by
      have hjw := (hI j).mpr (.inl hj)
      have hjb : j ≠ b := fun he => hnew (he ▸ hj)
      rw [hz.file j ⟨by rw [hs.isInode]; exact hjw, fun hgone => hjb hgone.1⟩, hs.file j hjw,
        hfile j hj]
    have hallnames : z.names = v.names := names_congr (hkeep _ (isInode_root v))
    rw [hnames, hn, hslots] at he
    refine returns_throw.mpr ⟨⟨hz', he.imp (fun he => ⟨b, hnew, ?_⟩) fun ⟨_, he⟩ => ⟨e, rfl, .inr ?_⟩,
      fun _ _ => ⟨hallnames, hkeep⟩, .inl (slot_congr (hkeep _ (isInode_root v))).2⟩,
      hz.ended ∘ hs.ended ∘ hended⟩
    · rw [nameStep, hno, hallnames]
      simp only [he]
    · exact he.imp_left fun he => ⟨he.1, by omega⟩
  · obtain ⟨hno', hl⟩ := hx
    rw [hnames] at hno'
    have hslots' := hl.slots
    rw [hn, hslots] at hslots'
    refine returns_changeLinkcount.mpr (returns_pure.mpr (returns_pure.mpr
      ⟨⟨hl.sound, .inl ⟨b, hnew, ?_⟩, (fun _ he => by cases he), hslots'⟩, hl.ended ∘ hended⟩))
    rw [nameStep, hno, hl.names, hnames]
    simp only [hno']

/-- **`sfs_creat`.** -/
theorem returns_creat (h : v.Sound) (hload : sfsRootdirIno ∈ v.fs.vnodes) (excl : Bool) :
    Returns (do return Reply.inode (← sfsCreat sfsRootdirIno name excl)) v
      ((NameOp.creat name excl).Done v) := by
  unfold sfsCreat
  rw [returns_bind]
  refine (returns_findname h hload name).bind ?_
  rintro (e | scan) u hu
  · exact hu.elim
  obtain ⟨hu, hs, hfree, hmem, hvn, hscan⟩ := hu
  have hnames := hscan.names h.listed
  change Returns _ u _
  beta_reduce
  cases hf : scan.found with
  | some p =>
    obtain ⟨k, ino⟩ := p
    rw [hf] at hnames
    replace hnames : v.names name.bytes = some ino := hnames
    change Returns (if excl then throw FsErr.eexist else _) u _
    split_ifs with hexcl
    · refine returns_throw.mpr (NameOp.Done.same h hu hs (.inl ?_))
      rw [nameStep, hnames]
      exact if_pos hexcl
    · have hino : u.IsInode ino := by
        rw [hs.isInode]
        exact isInode_of_name hnames
      refine (returns_load hu hino).bind ?_
      rintro (e | _) w hw
      · obtain ⟨hw, hs', he, hm⟩ := hw
        rw [hmem] at hm
        exact NameOp.Done.same h hw (hs.trans hs') (.inr ⟨e, rfl, .inl ⟨he, hm⟩⟩)
      · obtain ⟨hw, hs', -⟩ := hw
        refine returns_pure.mpr (returns_pure.mpr
          (NameOp.Done.same h hw (hs.trans hs') (.inl ?_)))
        rw [nameStep, hnames]
        exact if_neg hexcl
  | none =>
    rw [hf] at hnames
    have hno : u.names name.bytes = none := by
      rw [hs.names]
      exact hnames
    obtain ⟨hslots, hn⟩ := slot_congr hs.rootdir
    have hnew := returns_creatNew hu (by rw [hvn]; exact hload) excl hno
    rw [returns_bind] at hnew
    refine hnew.mono ?_
    intro r w hw
    cases r with
    | error e => exact NameOp.Done.start hw hs hfree hmem
    | ok ino => exact returns_pure.mpr (NameOp.Done.start (returns_pure.mp hw) hs hfree hmem)

theorem returns_call (h : v.Sound) {dir : ℕ} (hload : dir ∈ v.fs.vnodes) {op : NameOp} {α : Type}
    {x : SfsM α} {f : α → SfsM Reply}
    (hx : dir = sfsRootdirIno → Returns (x >>= f) v (op.Done v)) :
    Returns (dirop dir x >>= f) v fun r w => op.CallPost dir v r w ∧ (v.Ended → w.Ended) := by
  unfold NameOp.CallPost
  rw [returns_bind, returns_dirop h hload]
  by_cases hdir : dir = sfsRootdirIno
  · simp only [if_pos hdir]
    exact returns_bind.mp ((hx hdir).mono fun _ _ hw => ⟨hw.toPost, hw.ended⟩)
  · simp only [if_neg hdir]
    exact ⟨⟨rfl, rfl⟩, id⟩

/-- **Each operation on names** does what it does to a finite map, unless it runs short of something. -/
theorem returns_nameOp (h : v.Sound) {dir : ℕ} (hload : dir ∈ v.fs.vnodes) {op : NameOp}
    (hvalid : op.Valid v) :
    Returns (op.prog dir) v fun r w => op.CallPost dir v r w ∧ (v.Ended → w.Ended) := by
  cases op with
  | creat name excl =>
    refine returns_call h hload fun hdir => ?_
    subst hdir
    exact returns_creat h hload excl
  | link name file =>
    refine returns_call h hload fun hdir => ?_
    subst hdir
    exact returns_link h hload hvalid
  | remove name =>
    refine returns_call h hload fun hdir => ?_
    subst hdir
    exact returns_remove h hload
  | rename n1 n2 =>
    refine returns_call h hload fun hdir => ?_
    subst hdir
    exact returns_rename h hload
  | lookup path =>
    refine returns_call h hload fun hdir => ?_
    subst hdir
    exact returns_lookup h hload

end Names

end SfsFs

end Os161
