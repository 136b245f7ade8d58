import Os161.Sfs.Calls
import Os161.Sfs.Offsets

set_option autoImplicit false

/-!
# The superblock in memory

After the mount nobody assigns `sfs_sb`: the number of blocks and the magic number are what the mount
has read, on every device and in every state of the memory, sound or not.

* `KeepsSb`: programs that leave the superblock as it is, with one rule for each construction.
* **`keepsSb_op`**: every call of a volume is one.
-/

namespace Os161

namespace SfsFs

variable {α β D : Type}

/-- The program leaves the superblock in memory as it is, whatever the device does. -/
structure KeepsSb (x : SfsM α) : Prop where
  sb : ∀ {D : Type} {dev : Device D} {m m' : SfsFs} {d d' : D} {r : Except FsErr α},
    runOn dev x m d = .ok (r, m', d') → m'.sb = m.sb

section Rules

variable {dev : Device D} {x : SfsM α} {f : α → SfsM β} {m m' : SfsFs} {d d' : D}

theorem runOn_bind_cases {r : Except FsErr β} (h : runOn dev (x >>= f) m d = .ok (r, m', d')) :
    (∃ e, runOn dev x m d = .ok (.error e, m', d') ∧ r = .error e) ∨
      ∃ a m₁ d₁, runOn dev x m d = .ok (.ok a, m₁, d₁) ∧
        runOn dev (f a) m₁ d₁ = .ok (r, m', d') := by
  unfold runOn at h ⊢
  change Program.run dev (x.run >>= ExceptT.bindCont f) m d = _ at h
  rw [Program.run_bind] at h
  obtain ⟨⟨r₁, m₁, d₁⟩, hx, hf⟩ := Transition.bind_eq_ok.mp h
  cases r₁ with
  | error e =>
    cases hf
    exact .inl ⟨e, hx, rfl⟩
  | ok a => exact .inr ⟨a, m₁, d₁, hx, hf⟩

theorem runOn_modify {g : SfsFs → SfsFs} {f : Unit → SfsM β} :
    runOn dev (modifyFs g >>= f) m d = runOn dev (f ()) (g m) d := rfl

theorem runOn_kmalloc {f : Bool → SfsM β} : runOn dev (kmalloc >>= f) m d =
    runOn dev (f (m.memory 0)) { m with memory := fun n => m.memory (n + 1) } d := rfl

/-- **One program after another.** -/
theorem keepsSb_bind (hx : KeepsSb x) (hf : ∀ a, KeepsSb (f a)) : KeepsSb (x >>= f) := by
  refine ⟨fun {D dev m m' d d' r} h => ?_⟩
  rcases runOn_bind_cases h with ⟨e, h, -⟩ | ⟨a, m₁, d₁, h₁, h₂⟩
  · exact hx.sb h
  · exact ((hf a).sb h₂).trans (hx.sb h₁)

theorem keepsSb_pure (a : α) : KeepsSb (pure a : SfsM α) := by
  refine ⟨fun {D dev m m' d d' r} h => ?_⟩
  cases h
  rfl

theorem keepsSb_throw (e : FsErr) : KeepsSb (throw e : SfsM α) := by
  refine ⟨fun {D dev m m' d d' r} h => ?_⟩
  cases h
  rfl

theorem keepsSb_panic (p : FsPanic) : KeepsSb (panic p : SfsM α) := by
  refine ⟨fun {D dev m m' d d' r} h => ?_⟩
  cases h

theorem keepsSb_get : KeepsSb getFs := by
  refine ⟨fun {D dev m m' d d' r} h => ?_⟩
  cases h
  rfl

theorem keepsSb_modify {g : SfsFs → SfsFs} (hg : ∀ m, (g m).sb = m.sb) :
    KeepsSb (modifyFs g) := by
  refine ⟨fun {D dev m m' d d' r} h => ?_⟩
  cases h
  exact hg m

theorem keepsSb_rwblock (q : SfsFs → SectorIo) : KeepsSb (sfsRwblock q) := by
  refine ⟨fun {D dev m m' d d' r} h => ?_⟩
  unfold runOn sfsRwblock at h
  change (dev d (q m) >>= fun r => _) = _ at h
  obtain ⟨a, -, h⟩ := Transition.bind_eq_ok.mp h
  cases h
  rfl

theorem keepsSb_attempt (hx : KeepsSb x) : KeepsSb (attempt x) := by
  refine ⟨fun {D dev m m' d d' r} h => ?_⟩
  rw [runOn_attempt] at h
  obtain ⟨⟨r₁, m₁, d₁⟩, hr, he⟩ := Transition.map_eq_ok h
  cases he
  exact hx.sb hr

theorem keepsSb_ite {c : Prop} [Decidable c] {y : SfsM α} (hx : KeepsSb x) (hy : KeepsSb y) :
    KeepsSb (if c then x else y) := by
  split_ifs
  · exact hx
  · exact hy

theorem keepsSb_lift (a : Except FsPanic α) : KeepsSb (lift a) := by
  cases a
  · exact keepsSb_panic _
  · exact keepsSb_pure _

theorem keepsSb_check (e : Option FsErr) : KeepsSb (check e) := by
  cases e
  · exact keepsSb_pure ()
  · exact keepsSb_throw _

theorem keepsSb_kassert (p : Prop) [Decidable p] : KeepsSb (kassert p) :=
  keepsSb_ite (keepsSb_pure ()) (keepsSb_panic _)

theorem keepsSb_status (hx : KeepsSb x) : KeepsSb (status x) :=
  keepsSb_bind (keepsSb_attempt hx) fun r => by
    cases r
    · exact keepsSb_pure _
    · exact keepsSb_pure _

theorem keepsSb_loop {body : ℕ → β → SfsM β} (h : ∀ i b, KeepsSb (body i b)) :
    ∀ left i b, KeepsSb (loop body left i b)
  | 0, _, b => keepsSb_pure b
  | left + 1, i, b => keepsSb_bind (h i b) fun b' => keepsSb_loop h left (i + 1) b'

theorem keepsSb_kmalloc : KeepsSb kmalloc :=
  keepsSb_bind keepsSb_get fun _ => keepsSb_bind (keepsSb_modify fun _ => rfl) fun _ => keepsSb_pure _

end Rules

/-! ## Blocks -/

section Blocks

theorem keepsSb_readblock (b : ℕ) : KeepsSb (sfsReadblock b) :=
  keepsSb_bind (keepsSb_rwblock _) fun r => keepsSb_bind (keepsSb_check r.1) fun _ => keepsSb_pure _

theorem keepsSb_writeblock (b : ℕ) (data : SfsFs → Buffer) : KeepsSb (sfsWriteblock b data) :=
  keepsSb_bind (keepsSb_rwblock _) fun r => keepsSb_check r.1

theorem keepsSb_bitmapUnmark (b : ℕ) : KeepsSb (bitmapUnmark b) :=
  keepsSb_bind keepsSb_get fun _ => keepsSb_bind (keepsSb_kassert _) fun _ => keepsSb_bind (keepsSb_kassert _) fun _ =>
    keepsSb_modify fun _ => rfl

theorem keepsSb_bfree (b : ℕ) : KeepsSb (sfsBfree b) :=
  keepsSb_bind (keepsSb_bitmapUnmark b) fun _ => keepsSb_modify fun _ => rfl

theorem keepsSb_ballocClear (b : ℕ) : KeepsSb (ballocClear b) :=
  keepsSb_bind (keepsSb_status (keepsSb_writeblock b _)) fun e => by
    cases e with
    | none => exact keepsSb_pure b
    | some e => exact keepsSb_bind (keepsSb_bitmapUnmark b) fun _ => keepsSb_throw e

theorem keepsSb_balloc : KeepsSb sfsBalloc :=
  keepsSb_bind keepsSb_get fun m => by
    cases m.bitmapAlloc with
    | none => exact keepsSb_throw _
    | some b =>
      exact keepsSb_bind (keepsSb_modify fun _ => rfl) fun _ =>
        keepsSb_ite (keepsSb_panic _) (keepsSb_ballocClear b)

theorem keepsSb_bused (b : ℕ) : KeepsSb (sfsBused b) :=
  keepsSb_bind keepsSb_get fun _ => keepsSb_ite (keepsSb_panic _) (keepsSb_pure _)

theorem keepsSb_handBack (b : ℕ) : KeepsSb (handBack b) :=
  keepsSb_ite (keepsSb_pure _) <| keepsSb_bind (keepsSb_bused b) fun _ =>
    keepsSb_ite (keepsSb_pure _) (keepsSb_panic _)

variable (ino fb : ℕ) (doalloc : Bool)

theorem keepsSb_bmapDirect : KeepsSb (bmapDirect ino fb doalloc) :=
  keepsSb_bind keepsSb_get fun _ => keepsSb_ite
    (keepsSb_bind keepsSb_balloc fun b => keepsSb_bind (keepsSb_modify fun _ => rfl) fun _ => keepsSb_handBack b)
    (keepsSb_handBack _)

theorem keepsSb_bmapIndirect : KeepsSb (bmapIndirect ino) :=
  keepsSb_bind keepsSb_get fun _ => keepsSb_ite
    (keepsSb_bind keepsSb_balloc fun _ => keepsSb_bind (keepsSb_modify fun _ => rfl) fun _ =>
      keepsSb_bind (keepsSb_modify fun _ => rfl) fun _ => keepsSb_pure _)
    (keepsSb_bind (keepsSb_readblock _) fun _ => keepsSb_bind (keepsSb_modify fun _ => rfl) fun _ => keepsSb_pure _)

theorem keepsSb_bmapEntry (idblock : ℕ) : KeepsSb (bmapEntry idblock fb doalloc) :=
  keepsSb_bind keepsSb_get fun _ => keepsSb_ite
    (keepsSb_bind keepsSb_balloc fun b => keepsSb_bind (keepsSb_modify fun _ => rfl) fun _ =>
      keepsSb_bind (keepsSb_writeblock _ _) fun _ => keepsSb_handBack b)
    (keepsSb_handBack _)

theorem keepsSb_bmap : KeepsSb (sfsBmap ino fb doalloc) :=
  keepsSb_ite (keepsSb_bmapDirect ..) <| keepsSb_ite (keepsSb_throw _) <| keepsSb_bind keepsSb_get fun _ =>
    keepsSb_ite (keepsSb_pure _) (keepsSb_bind (keepsSb_bmapIndirect ino) fun _ => keepsSb_bmapEntry ..)

theorem keepsSb_truncDirect (blocklen k : ℕ) : KeepsSb (truncDirect ino blocklen k) :=
  keepsSb_bind keepsSb_get fun _ => keepsSb_ite
    (keepsSb_bind (keepsSb_bfree _) fun _ => keepsSb_modify fun _ => rfl) (keepsSb_pure ())

theorem keepsSb_truncEntry (blocklen k : ℕ) (flags : Bool × Bool) :
    KeepsSb (truncEntry blocklen k flags) :=
  keepsSb_bind keepsSb_get fun _ => keepsSb_ite
    (keepsSb_bind (keepsSb_bfree _) fun _ => keepsSb_bind (keepsSb_modify fun _ => rfl) fun _ => keepsSb_pure _)
    (keepsSb_pure _)

theorem keepsSb_truncIndirect (blocklen idblock : ℕ) :
    KeepsSb (truncIndirect ino blocklen idblock) :=
  keepsSb_bind (keepsSb_readblock _) fun _ => keepsSb_bind (keepsSb_modify fun _ => rfl) fun _ =>
    keepsSb_bind (keepsSb_loop (fun k flags => keepsSb_truncEntry blocklen k flags) ..) fun _ => keepsSb_ite
      (keepsSb_bind (keepsSb_bfree _) fun _ => keepsSb_modify fun _ => rfl)
      (keepsSb_ite (keepsSb_writeblock _ _) (keepsSb_pure ()))

theorem keepsSb_itrunc (len : ℤ) : KeepsSb (sfsItrunc ino len) :=
  keepsSb_bind (keepsSb_loop (fun k _ => keepsSb_truncDirect ino _ k) ..) fun _ => keepsSb_bind keepsSb_get fun _ =>
    keepsSb_bind (keepsSb_ite (keepsSb_truncIndirect ..) (keepsSb_pure ())) fun _ =>
      keepsSb_modify fun _ => rfl

end Blocks

/-! ## Contents -/

section Contents

variable (ino : ℕ) (u : Uio)

theorem keepsSb_loadBlock (rw : UioRw) (b : ℕ) : KeepsSb (loadBlock rw b) :=
  keepsSb_ite (keepsSb_bind (keepsSb_kassert _) fun _ => keepsSb_modify fun _ => rfl)
    (keepsSb_bind (keepsSb_readblock b) fun _ => keepsSb_modify fun _ => rfl)

theorem keepsSb_movePartial (b skipstart len : ℕ) : KeepsSb (movePartial u b skipstart len) :=
  keepsSb_bind keepsSb_get fun _ => keepsSb_bind (keepsSb_lift _) fun _ => keepsSb_bind (keepsSb_modify fun _ => rfl) fun _ =>
    keepsSb_ite (keepsSb_pure _) <| keepsSb_ite
      (keepsSb_bind (keepsSb_status (keepsSb_writeblock _ _)) fun _ => keepsSb_pure _) (keepsSb_pure _)

theorem keepsSb_partialio (skipstart len : ℕ) : KeepsSb (sfsPartialio ino u skipstart len) :=
  keepsSb_bind (keepsSb_kassert _) fun _ => keepsSb_bind (keepsSb_attempt (keepsSb_bmap ..)) fun r => by
    cases r with
    | error e => exact keepsSb_pure _
    | ok b =>
      exact keepsSb_bind (keepsSb_status (keepsSb_loadBlock ..)) fun _ =>
        keepsSb_ite (keepsSb_pure _) (keepsSb_movePartial ..)

theorem keepsSb_blockio : KeepsSb (sfsBlockio ino u) :=
  keepsSb_bind (keepsSb_attempt (keepsSb_bmap ..)) fun r => by
    cases r with
    | error e => exact keepsSb_pure _
    | ok b =>
      exact keepsSb_ite (keepsSb_bind (keepsSb_kassert _) fun _ => keepsSb_lift _)
        (keepsSb_bind (keepsSb_kassert _) fun _ => keepsSb_bind (keepsSb_rwblock _) fun _ => keepsSb_pure _)

theorem keepsSb_ioBlocks (n : ℕ) : KeepsSb (ioBlocks ino n u) := by
  induction n generalizing u with
  | zero => exact keepsSb_pure _
  | succ n ih =>
    exact keepsSb_bind (keepsSb_blockio ino u) fun r => keepsSb_ite (keepsSb_pure _) (ih r.2)

theorem keepsSb_ioTransfer : KeepsSb (ioTransfer ino u) :=
  keepsSb_bind (keepsSb_ite (keepsSb_pure _) (keepsSb_partialio ..)) fun _ => keepsSb_ite (keepsSb_pure _) <|
    keepsSb_bind (keepsSb_kassert _) fun _ => keepsSb_bind (keepsSb_ioBlocks ..) fun _ =>
      keepsSb_ite (keepsSb_pure _) <| keepsSb_bind (keepsSb_kassert _) fun _ =>
        keepsSb_ite (keepsSb_pure _) (keepsSb_partialio ..)

theorem keepsSb_io : KeepsSb (sfsIo ino u) :=
  keepsSb_bind keepsSb_get fun _ => keepsSb_ite (keepsSb_pure _) <| keepsSb_bind (keepsSb_kassert _) fun _ =>
    keepsSb_bind (keepsSb_ioTransfer ..) fun _ => keepsSb_bind
      (keepsSb_bind keepsSb_get fun _ => keepsSb_bind (keepsSb_ite (keepsSb_modify fun _ => rfl) (keepsSb_pure ()))
        fun _ => keepsSb_pure _)
      fun _ => keepsSb_pure _

theorem keepsSb_metaio (pos : ℕ) (data : Buffer) (len : ℕ) (rw : UioRw) :
    KeepsSb (sfsMetaio ino pos data len rw) :=
  keepsSb_bind (keepsSb_bmap ..) fun _ => keepsSb_ite
    (keepsSb_bind (keepsSb_kassert _) fun _ => keepsSb_pure _) <|
    keepsSb_bind (keepsSb_readblock _) fun _ => keepsSb_bind (keepsSb_modify fun _ => rfl) fun _ => by
      cases rw with
      | read => exact keepsSb_pure _
      | write =>
        exact keepsSb_bind (keepsSb_modify fun _ => rfl) fun _ => keepsSb_bind (keepsSb_writeblock _ _) fun _ =>
          keepsSb_bind keepsSb_get fun _ => keepsSb_bind (keepsSb_ite (keepsSb_modify fun _ => rfl) (keepsSb_pure ()))
            fun _ => keepsSb_pure _

end Contents

/-! ## Vnodes -/

section Vnodes

variable (ino : ℕ)

theorem keepsSb_syncInode : KeepsSb (sfsSyncInode ino) :=
  keepsSb_bind keepsSb_get fun _ => keepsSb_ite
    (keepsSb_bind (keepsSb_writeblock _ _) fun _ => keepsSb_modify fun _ => rfl) (keepsSb_pure ())

theorem keepsSb_removeVnode : KeepsSb (removeVnode ino) :=
  keepsSb_bind keepsSb_get fun _ => keepsSb_ite (keepsSb_modify fun _ => rfl) (keepsSb_panic _)

theorem keepsSb_reclaimLast : KeepsSb (reclaimLast ino) :=
  keepsSb_bind keepsSb_get fun _ =>
    keepsSb_bind (keepsSb_ite (keepsSb_itrunc ino 0) (keepsSb_pure ())) fun _ =>
      keepsSb_bind (keepsSb_syncInode ino) fun _ => keepsSb_bind keepsSb_get fun _ =>
        keepsSb_bind (keepsSb_ite (keepsSb_bfree ino) (keepsSb_pure ())) fun _ =>
          keepsSb_removeVnode ino

theorem keepsSb_vnodeIncref : KeepsSb (vnodeIncref ino) := keepsSb_modify fun _ => rfl

theorem keepsSb_dropRef : KeepsSb (dropRef ino) := keepsSb_modify fun _ => rfl

theorem keepsSb_reclaim : KeepsSb (sfsReclaim ino) :=
  keepsSb_bind keepsSb_get fun _ => keepsSb_ite
    (keepsSb_bind (keepsSb_kassert _) fun _ => keepsSb_bind (keepsSb_dropRef ino) fun _ =>
      keepsSb_throw _)
    (keepsSb_reclaimLast ino)

theorem keepsSb_vnodeDecref : KeepsSb (vnodeDecref ino) :=
  keepsSb_bind keepsSb_get fun _ => keepsSb_bind (keepsSb_kassert _) fun _ =>
    keepsSb_ite (keepsSb_dropRef ino)
      (keepsSb_bind (keepsSb_status (keepsSb_reclaim ino)) fun _ => keepsSb_pure ())

theorem keepsSb_findVnode (forcetype : ℕ) (vnodes : List ℕ) :
    KeepsSb (findVnode ino forcetype vnodes) := by
  induction vnodes with
  | nil => exact keepsSb_pure _
  | cons i vnodes ih =>
    exact keepsSb_bind (keepsSb_bused i) fun _ => keepsSb_ite (keepsSb_panic _) <| keepsSb_ite
      (keepsSb_bind (keepsSb_kassert _) fun _ => keepsSb_bind (keepsSb_vnodeIncref ino) fun _ =>
        keepsSb_pure _)
      ih

theorem keepsSb_loadType (forcetype : ℕ) : KeepsSb (loadType ino forcetype) := by
  refine keepsSb_bind (keepsSb_ite ?_ (keepsSb_pure ())) fun _ => keepsSb_bind keepsSb_get fun _ =>
    keepsSb_ite (keepsSb_pure ()) (keepsSb_panic _)
  exact keepsSb_bind keepsSb_get fun _ => keepsSb_bind (keepsSb_kassert _) fun _ =>
    keepsSb_modify fun _ => rfl

theorem keepsSb_loadInode (forcetype : ℕ) : KeepsSb (loadInode ino forcetype) :=
  keepsSb_bind keepsSb_kmalloc fun _ => keepsSb_ite (keepsSb_throw _) <|
    keepsSb_bind (keepsSb_bused ino) fun _ => keepsSb_ite (keepsSb_panic _) <|
      keepsSb_bind (keepsSb_readblock ino) fun _ => keepsSb_bind (keepsSb_modify fun _ => rfl) fun _ =>
        keepsSb_bind (keepsSb_loadType ino forcetype) fun _ => keepsSb_bind keepsSb_kmalloc fun _ =>
          keepsSb_ite (keepsSb_throw _) (keepsSb_modify fun _ => rfl)

theorem keepsSb_loadvnode (forcetype : ℕ) : KeepsSb (sfsLoadvnode ino forcetype) :=
  keepsSb_bind keepsSb_get fun _ => keepsSb_bind (keepsSb_findVnode ..) fun _ =>
    keepsSb_ite (keepsSb_pure ()) (keepsSb_loadInode ..)

theorem keepsSb_makeobj (type : ℕ) : KeepsSb (sfsMakeobj type) :=
  keepsSb_bind keepsSb_balloc fun i =>
    keepsSb_bind (keepsSb_status (keepsSb_loadvnode i type)) fun e => by
      cases e with
      | none => exact keepsSb_pure i
      | some e => exact keepsSb_bind (keepsSb_bfree i) fun _ => keepsSb_throw e

end Vnodes

/-! ## Names -/

section Names

variable (dir slot : ℕ) (name : CString)

theorem keepsSb_writedir (sd : Buffer) : KeepsSb (sfsWritedir dir slot sd) :=
  keepsSb_bind (keepsSb_metaio ..) fun _ => keepsSb_pure ()

theorem keepsSb_dirNentries : KeepsSb (sfsDirNentries dir) :=
  keepsSb_bind keepsSb_get fun _ => keepsSb_bind (keepsSb_kassert _) fun _ =>
    keepsSb_ite (keepsSb_panic _) (keepsSb_pure _)

theorem keepsSb_scanSlot (scan : DirScan) : KeepsSb (scanSlot dir name slot scan) :=
  keepsSb_bind (keepsSb_metaio ..) fun _ => keepsSb_ite (keepsSb_pure _) <| keepsSb_ite
    (keepsSb_bind (keepsSb_kassert _) fun _ => keepsSb_pure _) (keepsSb_pure _)

theorem keepsSb_findname : KeepsSb (sfsDirFindname dir name) :=
  keepsSb_bind (keepsSb_dirNentries dir) fun _ =>
    keepsSb_loop (fun slot scan => keepsSb_scanSlot dir slot name scan) ..

theorem keepsSb_dirLink (ino : ℕ) : KeepsSb (sfsDirLink dir name ino) := by
  have hwrite : ∀ slot, KeepsSb (do sfsWritedir dir slot (direntry ino name.bytes); return slot) :=
    fun slot => keepsSb_bind (keepsSb_writedir ..) fun _ => keepsSb_pure slot
  refine keepsSb_bind (keepsSb_findname dir name) fun scan => keepsSb_ite (keepsSb_throw _) <|
    keepsSb_ite (keepsSb_throw _) ?_
  cases scan.emptyslot with
  | none => exact keepsSb_bind (keepsSb_dirNentries dir) hwrite
  | some slot => exact keepsSb_bind (keepsSb_pure slot) hwrite

theorem keepsSb_dirUnlink : KeepsSb (sfsDirUnlink dir slot) := keepsSb_writedir ..

theorem keepsSb_lookonce : KeepsSb (sfsLookonce dir name) :=
  keepsSb_bind (keepsSb_findname dir name) fun scan => by
    cases scan.found with
    | none => exact keepsSb_throw _
    | some found =>
      exact keepsSb_bind (keepsSb_loadvnode ..) fun _ => keepsSb_bind keepsSb_get fun _ =>
        keepsSb_ite (keepsSb_panic _) (keepsSb_pure _)

theorem keepsSb_changeLinkcount (ino : ℕ) (f : ℕ → ℕ) : KeepsSb (changeLinkcount ino f) :=
  keepsSb_modify fun _ => rfl

theorem keepsSb_creatNew : KeepsSb (creatNew dir name) :=
  keepsSb_bind (keepsSb_makeobj _) fun ino =>
    keepsSb_bind (keepsSb_attempt (keepsSb_dirLink ..)) fun r => by
      cases r with
      | error e => exact keepsSb_bind (keepsSb_vnodeDecref ino) fun _ => keepsSb_throw e
      | ok slot => exact keepsSb_bind (keepsSb_changeLinkcount ..) fun _ => keepsSb_pure ino

theorem keepsSb_creat (excl : Bool) : KeepsSb (sfsCreat dir name excl) :=
  keepsSb_bind (keepsSb_findname dir name) fun scan => by
    cases scan.found with
    | none => exact keepsSb_creatNew dir name
    | some found =>
      exact keepsSb_ite (keepsSb_throw _) <| keepsSb_bind (keepsSb_loadvnode ..) fun _ =>
        keepsSb_pure _

theorem keepsSb_link (file : ℕ) : KeepsSb (sfsLink dir name file) :=
  keepsSb_bind keepsSb_get fun _ => keepsSb_ite (keepsSb_throw _) <|
    keepsSb_bind (keepsSb_dirLink ..) fun _ => keepsSb_changeLinkcount ..

theorem keepsSb_remove : KeepsSb (sfsRemove dir name) :=
  keepsSb_bind (keepsSb_lookonce dir name) fun victim =>
    keepsSb_bind (keepsSb_status (keepsSb_dirUnlink ..)) fun e => by
      cases e with
      | some e => exact keepsSb_bind (keepsSb_vnodeDecref _) fun _ => keepsSb_throw e
      | none =>
        exact keepsSb_bind keepsSb_get fun _ => keepsSb_bind (keepsSb_kassert _) fun _ =>
          keepsSb_bind (keepsSb_changeLinkcount ..) fun _ => keepsSb_vnodeDecref _

theorem keepsSb_pukeHarder (g1 slot2 : ℕ) (e : FsErr) : KeepsSb (pukeHarder dir g1 slot2 e) :=
  keepsSb_bind (keepsSb_status (keepsSb_dirUnlink ..)) fun r => by
    cases r with
    | some _ => exact keepsSb_panic _
    | none =>
      exact keepsSb_bind (keepsSb_modify fun _ => rfl) fun _ =>
        keepsSb_bind (keepsSb_vnodeDecref g1) fun _ => keepsSb_throw e

theorem keepsSb_renameUnlink (g1 slot1 slot2 : ℕ) : KeepsSb (renameUnlink dir g1 slot1 slot2) :=
  keepsSb_bind (keepsSb_changeLinkcount ..) fun _ =>
    keepsSb_bind (keepsSb_status (keepsSb_dirUnlink ..)) fun r => by
      cases r with
      | some e => exact keepsSb_pukeHarder ..
      | none =>
        exact keepsSb_bind keepsSb_get fun _ => keepsSb_bind (keepsSb_kassert _) fun _ =>
          keepsSb_bind (keepsSb_changeLinkcount ..) fun _ => keepsSb_vnodeDecref g1

theorem keepsSb_rename (n1 n2 : CString) : KeepsSb (sfsRename dir n1 n2) :=
  keepsSb_bind (keepsSb_kassert _) fun _ => keepsSb_bind (keepsSb_lookonce dir n1) fun found =>
    keepsSb_bind keepsSb_get fun _ => keepsSb_bind (keepsSb_kassert _) fun _ =>
      keepsSb_bind (keepsSb_attempt (keepsSb_dirLink ..)) fun r => by
        cases r with
        | error e => exact keepsSb_bind (keepsSb_vnodeDecref _) fun _ => keepsSb_throw e
        | ok slot2 => exact keepsSb_renameUnlink ..

theorem keepsSb_lookup : KeepsSb (sfsLookup dir name) :=
  keepsSb_bind keepsSb_get fun _ => keepsSb_ite (keepsSb_throw _) <|
    keepsSb_bind (keepsSb_lookonce dir name) fun _ => keepsSb_pure _

theorem keepsSb_getroot : KeepsSb sfsGetroot :=
  keepsSb_bind (keepsSb_loadvnode ..) fun _ => keepsSb_bind keepsSb_get fun _ =>
    keepsSb_ite (keepsSb_throw _) (keepsSb_pure _)

theorem keepsSb_dirop {α : Type} {op : SfsM α} (h : KeepsSb op) : KeepsSb (dirop dir op) :=
  keepsSb_bind keepsSb_get fun _ => keepsSb_ite h (keepsSb_throw _)

theorem keepsSb_nameOp (op : NameOp) : KeepsSb (op.prog dir) := by
  cases op with
  | creat name excl =>
    exact keepsSb_bind (keepsSb_dirop dir (keepsSb_creat ..)) fun _ => keepsSb_pure _
  | link name file =>
    exact keepsSb_bind (keepsSb_dirop dir (keepsSb_link ..)) fun _ => keepsSb_pure _
  | remove name =>
    exact keepsSb_bind (keepsSb_dirop dir (keepsSb_remove ..)) fun _ => keepsSb_pure _
  | rename n1 n2 =>
    exact keepsSb_bind (keepsSb_dirop dir (keepsSb_rename ..)) fun _ => keepsSb_pure _
  | lookup path =>
    exact keepsSb_bind (keepsSb_dirop dir (keepsSb_lookup ..)) fun _ => keepsSb_pure _

end Names

/-! ## The volume -/

section Volume

theorem keepsSb_freemapio (rw : UioRw) : KeepsSb (sfsFreemapio rw) :=
  keepsSb_bind keepsSb_get fun _ => keepsSb_loop (fun _ _ => by
    cases rw with
    | read => exact keepsSb_bind (keepsSb_readblock _) fun _ => keepsSb_modify fun _ => rfl
    | write => exact keepsSb_writeblock _ _) ..

theorem keepsSb_syncVnodes (vnodes : List ℕ) : KeepsSb (syncVnodes vnodes) := by
  induction vnodes with
  | nil => exact keepsSb_pure ()
  | cons ino vnodes ih =>
    exact keepsSb_bind (keepsSb_status (keepsSb_syncInode ino)) fun _ => ih

theorem keepsSb_sync : KeepsSb sfsSync :=
  keepsSb_bind (keepsSb_bind keepsSb_get fun _ => keepsSb_syncVnodes _) fun _ =>
    keepsSb_bind
      (keepsSb_bind keepsSb_get fun _ => keepsSb_ite
        (keepsSb_bind (keepsSb_freemapio _) fun _ => keepsSb_modify fun _ => rfl) (keepsSb_pure ()))
      fun _ => keepsSb_bind keepsSb_get fun _ => keepsSb_ite
        (keepsSb_bind (keepsSb_writeblock _ _) fun _ => keepsSb_modify fun _ => rfl)
        (keepsSb_pure ())

/-- **The calls of a volume** leave the superblock in memory as it is. -/
theorem keepsSb_op (op : SfsOp) : KeepsSb op.prog := by
  cases op with
  | names dir op => exact keepsSb_nameOp dir op
  | getroot => exact keepsSb_bind keepsSb_getroot fun _ => keepsSb_pure _
  | read ino u =>
    refine keepsSb_bind ?_ fun _ => keepsSb_pure _
    exact keepsSb_bind keepsSb_get fun _ => keepsSb_ite (keepsSb_pure _) <|
      keepsSb_bind (keepsSb_kassert _) fun _ => keepsSb_io ino u
  | write ino u =>
    refine keepsSb_bind ?_ fun _ => keepsSb_pure _
    exact keepsSb_bind keepsSb_get fun _ => keepsSb_ite (keepsSb_pure _) <|
      keepsSb_bind (keepsSb_kassert _) fun _ => keepsSb_io ino u
  | truncate ino len =>
    refine keepsSb_bind ?_ fun _ => keepsSb_pure _
    exact keepsSb_bind keepsSb_get fun _ => keepsSb_ite (keepsSb_throw _) (keepsSb_itrunc ino len)
  | incref ino => exact keepsSb_bind (keepsSb_vnodeIncref ino) fun _ => keepsSb_pure _
  | decref ino => exact keepsSb_bind (keepsSb_vnodeDecref ino) fun _ => keepsSb_pure _
  | fsync ino => exact keepsSb_bind (keepsSb_syncInode ino) fun _ => keepsSb_pure _
  | sync => exact keepsSb_bind keepsSb_sync fun _ => keepsSb_pure _

end Volume

end SfsFs

end Os161
