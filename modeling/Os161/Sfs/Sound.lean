import Os161.Sfs.Names

set_option autoImplicit false

/-!
# Sound volumes

What the operations of a volume keep: the blocks are in order, the directory is, and each file has as
many links as there are entries that name it.

* `Vol.IsInode`: the inodes in use; **`Vol.Sound`**: the invariant.
* `Ordered.same`, `Ordered.put`, `Ordered.clear`, `Ordered.relink`, `Ordered.released`, `Sound.made`:
  the parts of the operations.
-/

namespace Os161

open Buffer SfsFs

namespace Vol

/-- **The inodes in use**: the root directory, those that are loaded, and those that have a name. -/
def IsInode (v : Vol) (j : ℕ) : Prop :=
  j = sfsRootdirIno ∨ j ∈ v.fs.vnodes ∨ ∃ name, v.names name = some j

/-- The volume is in order, and the link counts are `c`. -/
structure Ordered (c : ℕ → ℕ) (v : Vol) : Prop where
  physical : v.Physical v.IsInode
  listed : v.Listed
  file : ∀ name ino, v.names name = some ino → (v.file ino).type = sfsTypeFile
  root : (v.file sfsRootdirIno).linkcount ≠ 0
  only : ∀ ino, v.IsInode ino → (v.file ino).type = sfsTypeDir → ino = sfsRootdirIno
  linkcount : ∀ ino, v.IsInode ino → ino ≠ sfsRootdirIno → (v.file ino).linkcount = c ino

/-- **The volume is sound**: each file has as many links as entries that name it. -/
def Sound (v : Vol) : Prop := v.Ordered v.links

/-- **A step that changes no file** and has the same inodes in use. -/
structure Same (v w : Vol) : Prop where
  file : ∀ j, v.IsInode j → w.file j = v.file j
  isInode : w.IsInode = v.IsInode
  ended : v.Ended → w.Ended

section Same

variable {u v w : Vol} {c : ℕ → ℕ} {j ino : ℕ}

theorem isInode_root (v : Vol) : v.IsInode sfsRootdirIno := .inl rfl

theorem isInode_of_mem (h : j ∈ v.fs.vnodes) : v.IsInode j := .inr (.inl h)

theorem isInode_of_name {name : List UInt8} (h : v.names name = some j) : v.IsInode j :=
  .inr (.inr ⟨name, h⟩)

theorem isInode_congr (hnames : w.names = v.names) (h : ∀ j, j ∈ w.fs.vnodes ↔ j ∈ v.fs.vnodes) :
    w.IsInode = v.IsInode := by
  funext j
  unfold IsInode
  rw [hnames, h j]

theorem Same.refl (v : Vol) : Same v v := ⟨fun _ _ => rfl, rfl, id⟩

theorem Same.trans (h : Same u v) (h' : Same v w) : Same u w :=
  ⟨fun j hj => (h'.file j (by rw [h.isInode]; exact hj)).trans (h.file j hj),
    h'.isInode.trans h.isInode, h'.ended ∘ h.ended⟩

theorem Same.rootdir (h : Same v w) : w.file sfsRootdirIno = v.file sfsRootdirIno :=
  h.file _ (isInode_root v)

theorem Same.names (h : Same v w) : w.names = v.names := names_congr h.rootdir

theorem Same.links (h : Same v w) : w.links = v.links := links_congr h.rootdir

/-- **A volume that is ordered stays it** when no file changes. -/
theorem Ordered.same (h : v.Ordered c) (hs : Same v w) (hp : w.Physical v.IsInode) : w.Ordered c where
  physical := by
    rw [hs.isInode]
    exact hp
  listed := h.listed.congr hs.rootdir
  file name ino hn := by
    rw [hs.names] at hn
    rw [hs.file ino (isInode_of_name hn)]
    exact h.file name ino hn
  root := by
    rw [hs.rootdir]
    exact h.root
  only ino hi ht := by
    rw [hs.isInode] at hi
    rw [hs.file ino hi] at ht
    exact h.only ino hi ht
  linkcount ino hi hne := by
    rw [hs.isInode] at hi
    rw [hs.file ino hi]
    exact h.linkcount ino hi hne

theorem Sound.same (h : v.Sound) (hs : Same v w) (hp : w.Physical v.IsInode) : w.Sound := by
  unfold Sound
  rw [hs.links]
  exact Ordered.same h hs hp

/-- Steps that do not change the table. -/
theorem Same.of_steady (h : Steady v.IsInode v w) (hvn : w.fs.vnodes = v.fs.vnodes) : Same v w :=
  ⟨h.file, isInode_congr (names_congr (h.file _ (isInode_root v))) fun j => by rw [hvn], h.ended⟩

theorem Same.of_kept (h : Kept v.IsInode ino v w) : Same v w := .of_steady h.steady h.touch.vnodes

/-- An inode is loaded. -/
theorem Same.of_loaded (h : Loaded v.IsInode ino v w) (hino : v.IsInode ino)
    (hload : ino ∈ w.fs.vnodes) : Same v w := by
  have hnames := names_congr (h.file _ (isInode_root v))
  refine ⟨h.file, funext fun j => propext ?_, h.ended⟩
  unfold IsInode
  rw [hnames]
  by_cases hj : j = ino
  · rw [hj]
    exact iff_of_true (.inr (.inl hload)) hino
  · rw [h.vnodes j hj]

theorem Ordered.kept (h : v.Ordered c) (hk : Kept v.IsInode ino v w) : w.Ordered c :=
  h.same (.of_kept hk) hk.physical

/-- The links are exactly those of the entries. -/
theorem Ordered.sound (h : v.Ordered c)
    (hc : ∀ ino, v.IsInode ino → ino ≠ sfsRootdirIno → c ino = v.links ino) : v.Sound :=
  ⟨h.physical, h.listed, h.file, h.root, h.only, fun ino hi hne =>
    (h.linkcount ino hi hne).trans (hc ino hi hne)⟩

theorem Ordered.ne_root (h : v.Ordered c) (htype : (v.file ino).type = sfsTypeFile) :
    ino ≠ sfsRootdirIno := by
  rintro rfl
  rw [h.listed.dir] at htype
  cases htype

/-- Files are named; the directory is not. -/
theorem Ordered.name_ne_root (h : v.Ordered c) {name : List UInt8} (hn : v.names name = some ino) :
    ino ≠ sfsRootdirIno := h.ne_root (h.file name ino hn)

/-- An inode that is not the root is a file. -/
theorem Ordered.type (h : v.Ordered c) (hino : v.IsInode ino) (hne : ino ≠ sfsRootdirIno) :
    (v.file ino).type = sfsTypeFile :=
  (h.physical.type ino hino).resolve_right fun ht => hne (h.only ino hino ht)

theorem Ordered.links_pos (h : v.Ordered c) : 0 < v.links ino ↔ ∃ name, v.names name = some ino :=
  SlotMap.count_pos_iff_lookup h.listed.distinct

/-- There are not more links than slots. -/
theorem Ordered.links_le (h : v.Ordered c) (ino : ℕ) : v.links ino ≤ maxSlots := by
  refine SlotMap.count_le.trans ((Nat.le_div_iff_mul_le (by decide)).mpr ?_)
  rw [← h.listed.size]
  exact h.listed.fits

end Same

section Entries

variable {v w : Vol} {c : ℕ → ℕ} {k ino : ℕ} {e : Option (List UInt8 × ℕ)} {name : List UInt8}

/-- **A slot of the directory is changed**, and the names that it has are those of files. -/
theorem Ordered.slotSet (h : v.Ordered c) (hs : SlotSet v.IsInode k e v w)
    (hd : SlotMap.Distinct w.slot w.nslots) (hI : w.IsInode = v.IsInode)
    (hfile : ∀ name ino, w.names name = some ino → (v.file ino).type = sfsTypeFile) :
    w.Ordered c := by
  have hother : ∀ j, v.IsInode j → j ≠ sfsRootdirIno → w.file j = v.file j := fun j hj hne =>
    hs.rewritten.touch.file hj hne
  refine ⟨by rw [hI]; exact hs.rewritten.physical, ⟨?_, hs.size, hs.fits, hd⟩, fun name ino hn => ?_,
    ?_, fun ino hi ht => ?_, fun ino hi hne => ?_⟩
  · exact hs.rewritten.type.trans h.listed.dir
  · have htype := hfile name ino hn
    rwa [hother ino (hI ▸ isInode_of_name hn) (h.ne_root htype)]
  · rw [hs.rewritten.linkcount]
    exact h.root
  · by_contra hne
    rw [hI] at hi
    rw [hother ino hi hne] at ht
    exact hne (h.only ino hi ht)
  · rw [hI] at hi
    rw [hother ino hi hne]
    exact h.linkcount ino hi hne

/-- The names after a slot got a new one. -/
theorem SlotSet.names_put (hl : v.Listed) (hs : SlotSet v.IsInode k (some (name, ino)) v w)
    (hempty : k < v.nslots → v.slot k = none) (hnew : v.names name = none) :
    w.names = Function.update v.names name (some ino) :=
  hs.change.lookup_put hl.distinct hempty hs.self hnew

/-- **A file gets a name.** -/
theorem Ordered.put (h : v.Ordered c) (hs : SlotSet v.IsInode k (some (name, ino)) v w)
    (hempty : k < v.nslots → v.slot k = none) (hnew : v.names name = none) (hino : v.IsInode ino)
    (hroot : ino ≠ sfsRootdirIno) : w.Ordered c ∧ w.IsInode = v.IsInode := by
  have hnames := hs.names_put h.listed hempty hnew
  have hmem : ∀ n j, w.names n = some j → j = ino ∨ v.names n = some j := by
    intro n j hn
    rw [hnames] at hn
    by_cases hne : n = name
    · rw [hne, Function.update_self] at hn
      exact .inl (Option.some.inj hn).symm
    · rw [Function.update_of_ne hne] at hn
      exact .inr hn
  have hI : w.IsInode = v.IsInode := by
    funext j
    unfold IsInode
    rw [hs.rewritten.touch.vnodes]
    refine propext ⟨?_, ?_⟩
    · rintro (hr | hl | ⟨n, hn⟩)
      · exact .inl hr
      · exact .inr (.inl hl)
      · rcases hmem n j hn with rfl | hn
        · exact hino
        · exact .inr (.inr ⟨n, hn⟩)
    · rintro (hr | hl | ⟨n, hn⟩)
      · exact .inl hr
      · exact .inr (.inl hl)
      · refine .inr (.inr ⟨n, ?_⟩)
        rw [hnames, Function.update_of_ne, hn]
        rintro rfl
        rw [hnew] at hn
        cases hn
  refine ⟨h.slotSet hs (hs.change.distinct_put h.listed.distinct hs.self hnew) hI fun n j hn => ?_, hI⟩
  rcases hmem n j hn with rfl | hn
  · exact h.type hino hroot
  · exact h.file n j hn

/-- **A file that is loaded loses a name.** -/
theorem Ordered.clear (h : v.Ordered c) (hs : SlotSet v.IsInode k none v w) (hk : k < v.nslots)
    (hold : v.slot k = some (name, ino)) (hload : ino ∈ v.fs.vnodes) :
    w.Ordered c ∧ w.IsInode = v.IsInode ∧ w.names = Function.update v.names name none := by
  have hnames : w.names = Function.update v.names name none :=
    hs.change.lookup_clear h.listed.distinct hk hold hs.self
  have hname : v.names name = some ino := (SlotMap.lookup_eq_some h.listed.distinct).mpr ⟨k, hk, hold⟩
  have hmem : ∀ n j, w.names n = some j → v.names n = some j := by
    intro n j hn
    rw [hnames] at hn
    by_cases hne : n = name
    · rw [hne, Function.update_self] at hn
      cases hn
    · rwa [Function.update_of_ne hne] at hn
  have hI : w.IsInode = v.IsInode := by
    funext j
    unfold IsInode
    rw [hs.rewritten.touch.vnodes]
    refine propext ⟨?_, ?_⟩
    · exact Or.imp_right (Or.imp_right fun ⟨n, hn⟩ => ⟨n, hmem n j hn⟩)
    · rintro (hr | hl | ⟨n, hn⟩)
      · exact .inl hr
      · exact .inr (.inl hl)
      · by_cases hne : n = name
        · rw [hne, hname] at hn
          cases hn
          exact .inr (.inl hload)
        · exact .inr (.inr ⟨n, by rw [hnames, Function.update_of_ne hne, hn]⟩)
  exact ⟨h.slotSet hs (hs.change.distinct_clear h.listed.distinct hs.self) hI fun n j hn =>
    h.file n j (hmem n j hn), hI, hnames⟩

/-- The volume with another link count of a file that is loaded. -/
def relinked (v : Vol) (ino n : ℕ) : Vol := v.setInode ino (setLinkcount (v.fs.inode ino) n)

/-- **The link count of a file is changed.** -/
theorem Ordered.relink (h : v.Ordered c) (hload : ino ∈ v.fs.vnodes) (hroot : ino ≠ sfsRootdirIno)
    {n : ℕ} (hn : n < 2 ^ 16) : (v.relinked ino n).Ordered (Function.update c ino n) ∧
      (v.relinked ino n).IsInode = v.IsInode ∧
      (v.relinked ino n).file sfsRootdirIno = v.file sfsRootdirIno ∧
      (∀ j, v.IsInode j → j ≠ ino → (v.relinked ino n).file j = v.file j) := by
  have hino := isInode_of_mem hload
  have hword : sfiType (v.fs.inode ino) * 2 ^ 16 + n % 2 ^ 16 < wordSize := by
    have hlt : word (v.fs.inode ino) 1 < wordSize := word_lt
    unfold sfiType wordSize at *
    omega
  have hsplit : (sfiType (v.fs.inode ino) * 2 ^ 16 + n % 2 ^ 16) / 2 ^ 16 = sfiType (v.fs.inode ino) ∧
      (sfiType (v.fs.inode ino) * 2 ^ 16 + n % 2 ^ 16) % 2 ^ 16 = n := by omega
  obtain ⟨hp, ht, hwords, -, hbyte⟩ := h.physical.set_word hload (i := 1) (by decide) hword
    (fun _ => hsplit.1.trans (type_inode hload)) (rfl : v.relinked ino n = _)
  have htype : ((v.relinked ino n).file ino).type = (v.file ino).type := by
    change (v.relinked ino n).inodeWords ino 1 / 2 ^ 16 = _
    rw [hwords, Function.update_self, hsplit.1, type_inode hload]
  have hlink : ((v.relinked ino n).file ino).linkcount = n := by
    change (v.relinked ino n).inodeWords ino 1 % 2 ^ 16 = _
    rw [hwords, Function.update_self, hsplit.2]
  have hother : ∀ j, v.IsInode j → j ≠ ino → (v.relinked ino n).file j = v.file j := fun j hj hne =>
    ht.file hj hne
  have hdir := hother _ (isInode_root v) hroot.symm
  have hI : (v.relinked ino n).IsInode = v.IsInode :=
    isInode_congr (names_congr hdir) fun j => by rw [ht.vnodes]
  refine ⟨⟨by rw [hI]; exact hp, h.listed.congr hdir, fun name j hn => ?_, by rw [hdir]; exact h.root,
    fun j hj hd => ?_, fun j hj hne => ?_⟩, hI, hdir, hother⟩
  · rw [names_congr hdir] at hn
    by_cases hji : j = ino
    · rw [hji, htype, ← hji]
      exact h.file name j hn
    · rw [hother j (isInode_of_name hn) hji]
      exact h.file name j hn
  · rw [hI] at hj
    by_cases hji : j = ino
    · rw [hji, htype, ← hji] at hd
      exact h.only j hj hd
    · rw [hother j hj hji] at hd
      exact h.only j hj hd
  · rw [hI] at hj
    by_cases hji : j = ino
    · rw [hji, hlink, Function.update_self]
    · rw [hother j hj hji, Function.update_of_ne hji]
      exact h.linkcount j hj hne

/-- **A file that is loaded gets a name and a link.** -/
theorem Sound.put (h : v.Sound) (hs : SlotSet v.IsInode k (some (name, ino)) v w)
    (hempty : k < v.nslots → v.slot k = none) (hnew : v.names name = none)
    (hload : ino ∈ v.fs.vnodes) (hroot : ino ≠ sfsRootdirIno) {u : Vol}
    (hu : u = w.relinked ino (sfiLinkcount (w.fs.inode ino) + 1)) : u.Sound ∧
      u.names = Function.update v.names name (some ino) ∧ u.IsInode = v.IsInode ∧
      u.fs.vnodes = v.fs.vnodes ∧ u.slot = w.slot ∧ u.nslots = w.nslots := by
  have hino := isInode_of_mem hload
  obtain ⟨ho, hI⟩ := Ordered.put h hs hempty hnew hino hroot
  have hloadw : ino ∈ w.fs.vnodes := by
    rw [hs.rewritten.touch.vnodes]
    exact hload
  have hlink : sfiLinkcount (w.fs.inode ino) = v.links ino := by
    rw [linkcount_inode hloadw]
    exact ho.linkcount ino (hI ▸ hino) hroot
  have hmax := h.links_le ino
  rw [hlink] at hu
  obtain ⟨hu', hIu, hdir, -⟩ := ho.relink hloadw hroot (n := v.links ino + 1) (by
    have : maxSlots = 1144 := rfl
    omega)
  rw [← hu] at hu' hIu hdir
  have hcount : ∀ j, u.links j = v.links j + if j = ino then 1 else 0 := fun j => by
    rw [links_congr hdir]
    exact hs.change.count_put hempty hs.self j
  refine ⟨hu'.sound fun j _ _ => ?_, (names_congr hdir).trans (hs.names_put h.listed hempty hnew),
    hIu.trans hI, ?_, (slot_congr hdir).1, (slot_congr hdir).2⟩
  · rw [hcount]
    by_cases hj : j = ino
    · rw [hj, Function.update_self, if_pos rfl]
    · rw [Function.update_of_ne hj, if_neg hj, Nat.add_zero]
  · rw [hu]
    exact hs.rewritten.touch.vnodes

/-- **A file that is loaded loses a name and a link.** -/
theorem Sound.clear (h : v.Sound) (hs : SlotSet v.IsInode k none v w) (hk : k < v.nslots)
    (hold : v.slot k = some (name, ino)) (hload : ino ∈ v.fs.vnodes) {u : Vol}
    (hu : u = w.relinked ino (sfiLinkcount (w.fs.inode ino) - 1)) :
    0 < sfiLinkcount (w.fs.inode ino) ∧ u.Sound ∧ u.names = Function.update v.names name none ∧
      u.IsInode = v.IsInode ∧ u.fs.vnodes = v.fs.vnodes ∧ u.nslots = w.nslots := by
  have hino := isInode_of_mem hload
  have hname : v.names name = some ino := (SlotMap.lookup_eq_some h.listed.distinct).mpr ⟨k, hk, hold⟩
  have hroot := h.name_ne_root hname
  obtain ⟨ho, hI, hnames⟩ := Ordered.clear h hs hk hold hload
  have hloadw : ino ∈ w.fs.vnodes := by
    rw [hs.rewritten.touch.vnodes]
    exact hload
  have hlink : sfiLinkcount (w.fs.inode ino) = v.links ino := by
    rw [linkcount_inode hloadw]
    exact ho.linkcount ino (hI ▸ hino) hroot
  have hpos := h.links_pos.mpr ⟨name, hname⟩
  have hmax := h.links_le ino
  rw [hlink] at hu ⊢
  obtain ⟨hu', hIu, hdir, -⟩ := ho.relink hloadw hroot (n := v.links ino - 1) (by
    have : maxSlots = 1144 := rfl
    omega)
  rw [← hu] at hu' hIu hdir
  have hcount : ∀ j, v.links j = u.links j + if j = ino then 1 else 0 := fun j => by
    rw [links_congr hdir]
    exact hs.change.count_clear hk hold hs.self j
  refine ⟨hpos, hu'.sound fun j _ _ => ?_, (names_congr hdir).trans hnames, hIu.trans hI, ?_,
    (slot_congr hdir).2⟩
  · have := hcount j
    by_cases hj : j = ino
    · rw [hj] at this ⊢
      rw [Function.update_self, this, if_pos rfl, Nat.add_sub_cancel]
    · rw [if_neg hj] at this
      rw [Function.update_of_ne hj, this, Nat.add_zero]
  · rw [hu]
    exact hs.rewritten.touch.vnodes

end Entries

section Table

variable {v w : Vol} {ino b : ℕ}

/-- **A reference is given up.** -/
theorem Sound.released (h : v.Sound) (hload : ino ∈ v.fs.vnodes)
    (hr : Released v.IsInode ino v w) : w.Sound ∧ w.names = v.names ∧
      w.IsInode = Remains v.IsInode ino v w := by
  have hroot : Remains v.IsInode ino v w sfsRootdirIno := by
    refine ⟨isInode_root v, ?_⟩
    rintro ⟨rfl, hl, -⟩
    exact h.root hl
  have hdir := hr.file _ hroot
  have hnames := names_congr hdir
  have hI : ∀ j, w.IsInode j ↔ Remains v.IsInode ino v w j := by
    intro j
    unfold IsInode
    rw [hnames]
    constructor
    · rintro (rfl | hl | ⟨n, hn⟩)
      · exact hroot
      · by_cases hj : j = ino
        · rw [hj] at hl ⊢
          exact ⟨isInode_of_mem hload, fun hgone => hgone.2.2 hl⟩
        · exact ⟨isInode_of_mem ((hr.vnodes j hj).mp hl), fun hgone => hj hgone.1⟩
      · refine ⟨isInode_of_name hn, ?_⟩
        rintro ⟨rfl, hl, -⟩
        -- an inode that has a name has a link
        rw [h.linkcount j (isInode_of_name hn) (h.name_ne_root hn)] at hl
        exact absurd (h.links_pos.mpr ⟨n, hn⟩) (by omega)
    · rintro ⟨rfl | hl | hn, hgone⟩
      · exact .inl rfl
      · by_cases hj : j = ino
        · subst hj
          by_cases hlw : j ∈ w.fs.vnodes
          · exact .inr (.inl hlw)
          · have hl0 : (v.file j).linkcount ≠ 0 := fun h0 => hgone ⟨rfl, h0, hlw⟩
            by_cases hjr : j = sfsRootdirIno
            · exact .inl hjr
            · rw [h.linkcount j (isInode_of_mem hload) hjr] at hl0
              exact .inr (.inr (h.links_pos.mp (Nat.pos_of_ne_zero hl0)))
        · exact .inr (.inl ((hr.vnodes j hj).mpr hl))
      · exact .inr (.inr hn)
  have hIeq : w.IsInode = Remains v.IsInode ino v w := funext fun j => propext (hI j)
  have hfile : ∀ j, w.IsInode j → w.file j = v.file j := fun j hj => hr.file j ((hI j).mp hj)
  refine ⟨⟨by rw [hIeq]; exact hr.physical, h.listed.congr hdir, fun name j hn => ?_,
    by rw [hdir]; exact h.root, fun j hj hd => ?_, fun j hj hne => ?_⟩, hnames, hIeq⟩
  · rw [hfile j (isInode_of_name hn)]
    rw [hnames] at hn
    exact h.file name j hn
  · rw [hfile j hj] at hd
    exact h.only j ((hI j).mp hj).1 hd
  · rw [hfile j hj, links_congr hdir]
    exact h.linkcount j ((hI j).mp hj).1 hne

/-- **A file without names is made.** -/
theorem Sound.made (h : v.Sound) (hnew : ¬ v.IsInode b)
    (hp : w.Physical fun j => v.IsInode j ∨ j = b) (hfile : ∀ j, v.IsInode j → w.file j = v.file j)
    (htype : (w.file b).type = sfsTypeFile) (hlink : (w.file b).linkcount = 0)
    (hvn : w.fs.vnodes = v.fs.vnodes ++ [b]) :
    w.Sound ∧ w.names = v.names ∧ ∀ j, w.IsInode j ↔ v.IsInode j ∨ j = b := by
  have hdir := hfile _ (isInode_root v)
  have hnames := names_congr hdir
  have hI : ∀ j, w.IsInode j ↔ v.IsInode j ∨ j = b := by
    intro j
    unfold IsInode
    rw [hnames, hvn, List.mem_append, List.mem_singleton]
    tauto
  have hIeq : w.IsInode = fun j => v.IsInode j ∨ j = b := funext fun j => propext (hI j)
  refine ⟨⟨by rw [hIeq]; exact hp, h.listed.congr hdir, fun name j hn => ?_,
    by rw [hdir]; exact h.root, fun j hj hd => ?_, fun j hj hne => ?_⟩, hnames, hI⟩
  · rw [hnames] at hn
    rw [hfile j (isInode_of_name hn)]
    exact h.file name j hn
  · rcases (hI j).mp hj with hj | rfl
    · rw [hfile j hj] at hd
      exact h.only j hj hd
    · rw [htype] at hd
      cases hd
  · rw [links_congr hdir]
    rcases (hI j).mp hj with hj | rfl
    · rw [hfile j hj]
      exact h.linkcount j hj hne
    · rw [hlink]
      by_contra h0
      exact hnew (isInode_of_name (h.links_pos.mp (by omega)).choose_spec)

end Table

end Vol

end Os161
