import Os161.Sfs.Data

set_option autoImplicit false

/-!
# The table of vnodes

Inodes are loaded, written back and given up on a volume that is in order.

* `Steady`: a step that changes no file.
* **`returns_loadvnode`**, **`returns_makeobj`**: an inode is loaded, or made.
* **`returns_decref`**: a reference is given up, and with the last one to an inode that has no names
  the inode.
-/

namespace Os161

open Buffer SfsFs

/-- The slots that a file has for its data. -/
def Slot.IsData : Slot → Prop
  | .metadata _ => False
  | .inode _ => False
  | .indirect _ => True
  | .block _ _ => True

namespace Vol

/-- **A step that keeps the volume in order** and all files as they are. -/
structure Steady (I : ℕ → Prop) (v v' : Vol) : Prop where
  physical : v'.Physical I
  file : ∀ j, I j → v'.file j = v.file j
  ended : v.Ended → v'.Ended

section Lemmas

variable {v v' v'' : Vol} {I : ℕ → Prop} {ino b : ℕ}

theorem Steady.refl (h : v.Physical I) : Steady I v v := ⟨h, fun _ _ => rfl, id⟩

theorem Steady.trans (h : Steady I v v') (h' : Steady I v' v'') : Steady I v v'' :=
  ⟨h'.physical, fun j hj => (h'.file j hj).trans (h.file j hj), h'.ended ∘ h.ended⟩

theorem Kept.steady (h : Kept I ino v v') : Steady I v v' := by
  refine ⟨h.physical, fun j hj => ?_, h.touch.ended⟩
  by_cases hne : j = ino
  · rw [hne]
    exact h.file
  · exact h.touch.file hj hne

/-- **Steps that only move inodes** between the memory and the disk. -/
theorem Physical.steady (h : v.Physical I) (hn : v'.disk.nsect = v.disk.nsect)
    (hsb : ∀ i < 2, word v'.fs.sb i = word v.fs.sb i)
    (hfm : ∀ b < v.fs.freemapBits, v'.fs.freemap b = v.fs.freemap b)
    (hwords : ∀ j, I j → v'.inodeWords j = v.inodeWords j)
    (hdata : ∀ s c, v.Owns I s c → s.IsData → v'.disk.sector c = v.disk.sector c)
    (hloaded : ∀ j ∈ v'.fs.vnodes, I j) (hnodup : v'.fs.vnodes.Nodup)
    (hrefs : ∀ j ∈ v'.fs.vnodes, 0 < (v'.fs.sv j).refcount)
    (hclean : ∀ j ∈ v'.fs.vnodes, (v'.fs.sv j).dirty = false →
      words (v'.fs.inode j) = words (v'.disk.sector j))
    (hfreemap : v'.fs.freemapdirty = false → ∀ b < v.fs.freemapBits,
      v'.diskFreemap b = v.fs.freemap b)
    (hsuper : v'.fs.superdirty = false ∧
      ∀ o < sfsBlocksize, o ≠ 39 → v'.fs.sb o = v'.disk.sector sfsSuperBlock o)
    (hended : v.Ended → v'.Ended) : Steady I v v' := by
  have hnb : v'.fs.nblocks = v.fs.nblocks := hsb 1 (by decide)
  have hbits : v'.fs.freemapBits = v.fs.freemapBits := by
    unfold SfsFs.freemapBits
    rw [hnb]
  have hind : ∀ j, I j → v'.indirect j = v.indirect j := fun j hj => congrFun (hwords j hj) 17
  have hmap : ∀ j, I j → v'.blockOf j = v.blockOf j := fun j hj =>
    blockOf_congr (hwords j hj) fun h0 =>
      congrArg words (hdata (.indirect j) _ ⟨hj, rfl, h0⟩ trivial)
  have hfile : ∀ j, I j → v'.file j = v.file j := fun j hj =>
    file_congr (congrFun (hwords j hj) 0) (congrFun (hwords j hj) 1) (byte_congr (hmap j hj)
      fun fb h0 o _ => congrFun (hdata (.block j fb) _ ⟨hj, rfl, h0⟩ trivial) o)
  refine ⟨⟨(hsb 0 (by decide)).trans h.magic, h.exact.congr (fun s c => ?_) fun c => ?_, ?_, ?_, ?_,
    h.root, fun j hj => ?_, hloaded,
    hnodup, hrefs, hclean, ?_, ?_⟩, hfile, hended⟩
  · cases s with
    | metadata k =>
      refine and_congr_right fun _ => ?_
      unfold IsMeta SfsFs.freemapBlocks
      rw [hbits]
    | inode j => exact Iff.rfl
    | indirect j => exact and_congr_right fun hj => by rw [hind j hj]
    | block j fb => exact and_congr_right fun hj => by rw [hmap j hj]
  · unfold Marked
    rw [hnb]
    exact and_congr_right fun hc => by rw [hfm c (lt_of_lt_of_le hc h.nblocks_le)]
  · rw [hnb, hbits]
    intro c hc hlt
    rw [hfm c hlt]
    exact h.tail c hc hlt
  · rw [hnb, hbits]
    exact h.nblocks_le
  · rw [hnb, hn]
    exact h.fits
  · rw [hfile j hj]
    exact h.type j hj
  · rw [hbits]
    intro hd c hc
    rw [hfm c hc]
    exact hfreemap hd c hc
  · exact hsuper

/-- The superblock and the freemap on the disk are as clean as they were. -/
theorem Physical.meta_clean (h : v.Physical I) (hmeta : ∀ c, v.IsMeta c →
      v'.disk.sector c = v.disk.sector c) :
    (v.fs.freemapdirty = false → ∀ b < v.fs.freemapBits, v'.diskFreemap b = v.fs.freemap b) ∧
      ∀ o < sfsBlocksize, o ≠ 39 → v.fs.sb o = v'.disk.sector sfsSuperBlock o := by
  constructor
  · intro hd b hb
    rw [← h.freemap_clean hd b hb]
    unfold diskFreemap
    rw [hmeta _ (isMeta_freemap hb)]
  · rw [hmeta _ (.inl rfl)]
    exact h.super_clean.2

theorem Physical.isMeta_ne_inode (h : v.Physical I) (hino : I ino) {c : ℕ} (hc : v.IsMeta c) :
    c ≠ ino :=
  h.ne_of_ne (s := .metadata c) (t := .inode ino) ⟨rfl, hc⟩ ⟨rfl, hino⟩ (by simp)

theorem Physical.isData_ne_inode (h : v.Physical I) (hino : I ino) {s : Slot} {c : ℕ}
    (hs : v.Owns I s c) (hd : s.IsData) : c ≠ ino := by
  refine h.ne_of_ne (t := .inode ino) hs ⟨rfl, hino⟩ ?_
  rintro rfl
  exact hd

theorem sv_setSv (m : SfsFs) (ino : ℕ) (s : SfsVnode) : (m.setSv ino s).sv ino = s :=
  Function.update_self ..

theorem sv_setSv_of_ne (m : SfsFs) (s : SfsVnode) (hne : b ≠ ino) :
    (m.setSv ino s).sv b = m.sv b := Function.update_of_ne hne ..

/-- **The number of references** to a vnode is changed. -/
theorem Physical.set_refcount (h : v.Physical I) (n : ℕ) (hn : 0 < n)
    (hv : v' = ⟨v.fs.setSv ino { v.fs.sv ino with refcount := n }, v.disk⟩) : Steady I v v' := by
  have hself : v'.fs.sv ino = { v.fs.sv ino with refcount := n } := by
    rw [hv]
    exact sv_setSv ..
  have hother : ∀ j, j ≠ ino → v'.fs.sv j = v.fs.sv j := fun j hj => by
    rw [hv]
    exact sv_setSv_of_ne _ _ hj
  have hsv : ∀ j, v'.fs.inode j = v.fs.inode j ∧ (v'.fs.sv j).dirty = (v.fs.sv j).dirty := by
    intro j
    unfold SfsFs.inode
    by_cases hj : j = ino
    · rw [hj, hself]
      exact ⟨rfl, rfl⟩
    · rw [hother j hj]
      exact ⟨rfl, rfl⟩
  have hvn : v'.fs.vnodes = v.fs.vnodes := by rw [hv]; rfl
  have hdisk : v'.disk = v.disk := by rw [hv]
  refine h.steady (by rw [hdisk]) (fun _ _ => by rw [hv]; rfl) (fun _ _ => by rw [hv]; rfl)
    (fun j _ => ?_)
    (fun _ _ _ _ => by rw [hdisk]) (fun j hj => h.loaded j (hvn ▸ hj)) (hvn ▸ h.nodup)
    (fun j hj => ?_) (fun j hj hd => ?_) (by rw [hv]; exact h.freemap_clean)
    (by rw [hv]; exact h.super_clean) (by rw [hv]; exact id)
  · unfold inodeWords
    rw [(hsv j).1, hvn, hdisk]
  · by_cases hjn : j = ino
    · rw [hjn, hself]
      exact hn
    · rw [hother j hjn]
      exact h.refs j (hvn ▸ hj)
  · rw [(hsv j).1, hdisk]
    exact h.clean j (hvn ▸ hj) ((hsv j).2 ▸ hd)

/-- The volume after an inode is written back. -/
def synced (v : Vol) (ino : ℕ) : Vol :=
  ⟨v.fs.setSv ino { v.fs.sv ino with dirty := false }, v.disk.write ino (clip (v.fs.inode ino))⟩

theorem inode_synced (j : ℕ) : (v.synced ino).fs.inode j = v.fs.inode j := by
  by_cases hj : j = ino
  · have hself : (v.synced ino).fs.sv ino = { v.fs.sv ino with dirty := false } := sv_setSv ..
    rw [hj, SfsFs.inode, hself]
    rfl
  · exact congrArg SfsVnode.inode (sv_setSv_of_ne v.fs _ hj)

/-- **An inode is written back.** -/
theorem Physical.synced (h : v.Physical I) (hload : ino ∈ v.fs.vnodes) :
    Steady I v (v.synced ino) := by
  have hino := h.loaded ino hload
  have hsector : ∀ c, c ≠ ino → (v.synced ino).disk.sector c = v.disk.sector c := fun c hc =>
    Function.update_of_ne hc ..
  have hself : (v.synced ino).disk.sector ino = clip (v.fs.inode ino) := Function.update_self ..
  have hmeta := h.meta_clean (show ∀ c, v.IsMeta c → (v.synced ino).disk.sector c = _ from
    fun c hc => hsector c (h.isMeta_ne_inode hino hc))
  refine h.steady rfl (fun _ _ => rfl) (fun _ _ => rfl) (fun j hj => ?_)
    (fun s c hs hd => hsector c (h.isData_ne_inode hino hs hd)) h.loaded h.nodup (fun j hj => ?_)
    (fun j hj hd => ?_) hmeta.1 ⟨h.super_clean.1, hmeta.2⟩ (fun he => ⟨he.1, ?_⟩)
  · by_cases hjl : j ∈ v.fs.vnodes
    · rw [inodeWords_loaded hjl, inodeWords_loaded (v := v.synced ino) hjl, inode_synced]
    · have hne : j ≠ ino := fun he => hjl (he ▸ hload)
      rw [inodeWords_unloaded hjl, inodeWords_unloaded (v := v.synced ino) hjl, hsector j hne]
  · change 0 < (Function.update v.fs.sv ino _ j).refcount
    by_cases hjn : j = ino
    · rw [hjn, Function.update_self]
      exact h.refs ino hload
    · rw [Function.update_of_ne hjn]
      exact h.refs j hj
  · rw [inode_synced]
    by_cases hjn : j = ino
    · rw [hjn, hself, words_clip]
    · rw [hsector j hjn]
      refine h.clean j hj ?_
      have hd' : (Function.update v.fs.sv ino _ j : SfsVnode).dirty = false := hd
      rwa [Function.update_of_ne hjn] at hd'
  · rw [hsector sfsSuperBlock (h.isMeta_ne_inode hino (.inl rfl))]
    exact he.2

/-- **A vnode leaves the table** after its inode is written back. -/
theorem Physical.unload (h : v.Physical I) (hload : ino ∈ v.fs.vnodes)
    (hd : (v.fs.sv ino).dirty = false)
    (hv : v' = ⟨{ v.fs with vnodes := v.fs.vnodes.erase ino }, v.disk⟩) : Steady I v v' := by
  subst hv
  have hmem : ∀ j, j ∈ v.fs.vnodes.erase ino → j ∈ v.fs.vnodes := fun j => List.mem_of_mem_erase
  refine h.steady rfl (fun _ _ => rfl) (fun _ _ => rfl) (fun j hj => ?_) (fun _ _ _ _ => rfl) (fun j hj => h.loaded j (hmem j hj))
    (h.nodup.erase ino) (fun j hj => h.refs j (hmem j hj)) (fun j hj => h.clean j (hmem j hj))
    h.freemap_clean h.super_clean id
  by_cases hjn : j = ino
  · rw [hjn, inodeWords_loaded hload, h.clean ino hload hd]
    exact inodeWords_unloaded (v := ⟨_, _⟩) h.nodup.not_mem_erase
  · by_cases hjl : j ∈ v.fs.vnodes
    · rw [inodeWords_loaded hjl]
      exact inodeWords_loaded (v := ⟨_, _⟩) ((List.mem_erase_of_ne hjn).mpr hjl)
    · rw [inodeWords_unloaded hjl]
      exact inodeWords_unloaded (v := ⟨_, _⟩) fun hje => hjl (hmem j hje)

/-- **An inode is loaded.** -/
theorem Physical.load (h : v.Physical I) (hino : I ino) (hload : ino ∉ v.fs.vnodes)
    {memory : ℕ → Bool} (hv : v' = ⟨{ v.fs.setSv ino ⟨clip (v.disk.sector ino), false, 1⟩ with
      memory := memory, vnodes := v.fs.vnodes ++ [ino] }, v.disk⟩) : Steady I v v' := by
  have hvn : v'.fs.vnodes = v.fs.vnodes ++ [ino] := by rw [hv]
  have hdisk : v'.disk = v.disk := by rw [hv]
  have hself : v'.fs.sv ino = ⟨clip (v.disk.sector ino), false, 1⟩ := by
    rw [hv]
    exact sv_setSv ..
  have hother : ∀ j, j ≠ ino → v'.fs.sv j = v.fs.sv j := fun j hj => by
    rw [hv]
    exact sv_setSv_of_ne _ _ hj
  have hmem : ∀ j ∈ v'.fs.vnodes, j ≠ ino → j ∈ v.fs.vnodes := fun j hj hne => by
    rw [hvn] at hj
    exact (List.mem_append.mp hj).resolve_right fun he => hne (List.mem_singleton.mp he)
  refine h.steady (by rw [hdisk]) (fun _ _ => by rw [hv]; rfl) (fun _ _ => by rw [hv]; rfl)
    (fun j hj => ?_)
    (fun _ _ _ _ => by rw [hdisk]) (fun j hj => ?_) ?_ (fun j hj => ?_) (fun j hj hd => ?_)
    (by rw [hv]; exact h.freemap_clean) (by rw [hv]; exact h.super_clean) (by rw [hv]; exact id)
  · by_cases hjn : j = ino
    · rw [hjn, inodeWords_unloaded hload, inodeWords_loaded (by rw [hvn]; simp), SfsFs.inode, hself]
      exact words_clip
    · by_cases hjl : j ∈ v.fs.vnodes
      · rw [inodeWords_loaded hjl, inodeWords_loaded (by rw [hvn]; exact List.mem_append_left _ hjl),
          SfsFs.inode, hother j hjn]
        rfl
      · rw [inodeWords_unloaded hjl, inodeWords_unloaded fun hja => hjl (hmem j hja hjn), hdisk]
  · by_cases hjn : j = ino
    · rw [hjn]
      exact hino
    · exact h.loaded j (hmem j hj hjn)
  · rw [hvn, List.nodup_append]
    refine ⟨h.nodup, by simp, fun j hj k hk => ?_⟩
    rw [List.mem_singleton.mp hk]
    rintro rfl
    exact hload hj
  · by_cases hjn : j = ino
    · rw [hjn, hself]
      exact Nat.one_pos
    · rw [hother j hjn]
      exact h.refs j (hmem j hj hjn)
  · rw [SfsFs.inode, hdisk]
    by_cases hjn : j = ino
    · rw [hjn, hself]
      exact words_clip
    · rw [hother j hjn] at hd ⊢
      exact h.clean j (hmem j hj hjn) hd

/-- Memory, and vnodes that are not in the table, do not matter. -/
theorem Physical.scratch (h : v.Physical I) (hload : ino ∉ v.fs.vnodes) {s : SfsVnode}
    {memory : ℕ → Bool} (hv : v' = ⟨{ v.fs.setSv ino s with memory := memory }, v.disk⟩) :
    Steady I v v' := by
  have hsv : ∀ j ∈ v.fs.vnodes, v'.fs.sv j = v.fs.sv j := fun j hj => by
    rw [hv]
    exact sv_setSv_of_ne _ _ fun he => hload (he ▸ hj)
  have hvn : v'.fs.vnodes = v.fs.vnodes := by rw [hv]; rfl
  have hdisk : v'.disk = v.disk := by rw [hv]
  refine h.steady (by rw [hdisk]) (fun _ _ => by rw [hv]; rfl) (fun _ _ => by rw [hv]; rfl)
    (fun j _ => ?_)
    (fun _ _ _ _ => by rw [hdisk]) (by rw [hvn]; exact h.loaded) (by rw [hvn]; exact h.nodup)
    (fun j hj => ?_) (fun j hj hd => ?_) (by rw [hv]; exact h.freemap_clean)
    (by rw [hv]; exact h.super_clean) (by rw [hv]; exact id)
  · by_cases hjl : j ∈ v.fs.vnodes
    · rw [inodeWords_loaded hjl, inodeWords_loaded (by rw [hvn]; exact hjl), SfsFs.inode, hsv j hjl]
      rfl
    · rw [inodeWords_unloaded hjl, inodeWords_unloaded (by rw [hvn]; exact hjl), hdisk]
  · rw [hvn] at hj
    rw [hsv j hj]
    exact h.refs j hj
  · rw [hvn] at hj
    rw [hsv j hj] at hd
    rw [SfsFs.inode, hsv j hj, hdisk]
    exact h.clean j hj hd

/-- A block that was allocated is free again. -/
theorem Physical.unmake (h : v.Physical I) (hb : v.Free b) (hdisk : v'.disk = v.disk.write b fun _ => 0)
    (hsb : v'.fs.sb = v.fs.sb) (hsuper : v'.fs.superdirty = v.fs.superdirty)
    (hfm : v'.fs.freemap = v.fs.freemap) (hfd : v'.fs.freemapdirty = true)
    (hvn : v'.fs.vnodes = v.fs.vnodes) (hsv : ∀ j ∈ v.fs.vnodes, v'.fs.sv j = v.fs.sv j) :
    Steady I v v' := by
  have hsector : ∀ t c, v.Owns I t c → v'.disk.sector c = v.disk.sector c := fun t c ht => by
    rw [hdisk]
    exact Function.update_of_ne (h.ne_of_free hb ht) ..
  have hmeta := h.meta_clean fun c hc => hsector (.metadata c) c ⟨rfl, hc⟩
  refine h.steady (by rw [hdisk]; rfl) (fun _ _ => by rw [hsb]) (fun _ _ => by rw [hfm]) (fun j hj => ?_)
    (fun s c hs _ => hsector s c hs)
    (by rw [hvn]; exact h.loaded) (by rw [hvn]; exact h.nodup) (fun j hj => ?_) (fun j hj hd => ?_)
    (fun hf => ?_) ⟨hsuper.trans h.super_clean.1, by rw [hsb]; exact hmeta.2⟩ (fun he => ?_)
  · by_cases hjl : j ∈ v.fs.vnodes
    · rw [inodeWords_loaded hjl, inodeWords_loaded (by rw [hvn]; exact hjl), SfsFs.inode, hsv j hjl]
      rfl
    · rw [inodeWords_unloaded hjl, inodeWords_unloaded (by rw [hvn]; exact hjl),
        hsector (.inode j) j ⟨rfl, hj⟩]
  · rw [hvn] at hj
    rw [hsv j hj]
    exact h.refs j hj
  · rw [hvn] at hj
    rw [hsv j hj] at hd
    rw [SfsFs.inode, hsv j hj, hsector (.inode j) j ⟨rfl, h.loaded j hj⟩]
    exact h.clean j hj hd
  · rw [hfd] at hf
    cases hf
  · unfold Ended
    rw [hsb, hsector (.metadata 0) sfsSuperBlock h.zero_owns]
    exact he

theorem Physical.marked_inode (h : v.Physical I) (hino : I ino) : v.Marked ino :=
  h.exact.marked (.inode ino) ino ⟨rfl, hino⟩

theorem Physical.not_inode_of_free (h : v.Physical I) (hb : v.Free b) : ¬ I b := fun hi =>
  h.ne_of_free hb (s := .inode b) ⟨rfl, hi⟩ rfl

/-- The views of the files, when their inodes and data are the same. -/
theorem file_of_words (hwords : v'.inodeWords ino = v.inodeWords ino)
    (hdata : ∀ s c, v.Owns (· = ino) s c → s.IsData → v'.disk.sector c = v.disk.sector c) :
    v'.blockOf ino = v.blockOf ino ∧ v'.file ino = v.file ino := by
  have hmap : v'.blockOf ino = v.blockOf ino := blockOf_congr hwords fun h0 =>
    congrArg words (hdata (.indirect ino) _ ⟨rfl, rfl, h0⟩ trivial)
  exact ⟨hmap, file_congr (congrFun hwords 0) (congrFun hwords 1) (byte_congr hmap
    fun fb h0 o _ => congrFun (hdata (.block ino fb) _ ⟨rfl, rfl, h0⟩ trivial) o)⟩

variable (v') in
/-- **A new inode** in a block that was free. -/
theorem Physical.create (h : v.Physical I) (hb : v.Free b) {s : SfsVnode}
    (hs : s = ⟨setType (fun _ => 0) sfsTypeFile, true, 1⟩)
    (hdisk : v'.disk = v.disk.write b fun _ => 0) (hsb : v'.fs.sb = v.fs.sb)
    (hsuper : v'.fs.superdirty = v.fs.superdirty)
    (hfm : v'.fs.freemap = Function.update v.fs.freemap b true) (hfd : v'.fs.freemapdirty = true)
    (hvn : v'.fs.vnodes = v.fs.vnodes ++ [b]) (hsv : v'.fs.sv = Function.update v.fs.sv b s) :
    v'.Physical (fun j => I j ∨ j = b) ∧ (∀ j, I j → v'.file j = v.file j) ∧
      (v'.file b).type = sfsTypeFile ∧ (v'.file b).linkcount = 0 ∧ (v.Ended → v'.Ended) := by
  have hnew := h.not_inode_of_free hb
  have hne : ∀ j, I j → j ≠ b := fun j hj he => hnew (he ▸ hj)
  have hsector : ∀ t c, v.Owns I t c → v'.disk.sector c = v.disk.sector c := fun t c ht => by
    rw [hdisk]
    exact Function.update_of_ne (h.ne_of_free hb ht) ..
  have hother : ∀ j, j ≠ b → v'.fs.sv j = v.fs.sv j := fun j hj => by
    rw [hsv, Function.update_of_ne hj]
  have hself : v'.fs.sv b = s := by rw [hsv, Function.update_self]
  have hmem : ∀ j, j ≠ b → (j ∈ v'.fs.vnodes ↔ j ∈ v.fs.vnodes) := fun j hj => by
    rw [hvn, List.mem_append, or_iff_left fun he => hj (List.mem_singleton.mp he)]
  have hwords : ∀ j, I j → v'.inodeWords j = v.inodeWords j := fun j hj => by
    unfold Vol.inodeWords SfsFs.inode
    rw [hother j (hne j hj), hsector (.inode j) j ⟨rfl, hj⟩]
    exact congrArg words (if_congr (hmem j (hne j hj)) rfl rfl)
  have hwordsb : v'.inodeWords b = Function.update (fun _ => 0) 1 (2 ^ 16) := by
    rw [inodeWords_loaded (by rw [hvn]; simp), SfsFs.inode, hself, hs, setType,
      words_setWord (by decide) (by decide), words_zero]
    exact congrArg _ (by simp [sfiLinkcount, word_zero, sfsTypeFile])
  have hview : ∀ j, I j → v'.blockOf j = v.blockOf j ∧ v'.file j = v.file j := fun j hj =>
    file_of_words (hwords j hj) fun t c ht hd => by
      refine hsector t c ?_
      cases t with
      | metadata k => exact hd.elim
      | inode k => exact hd.elim
      | indirect k => exact ⟨ht.1 ▸ hj, ht.2⟩
      | block k fb => exact ⟨ht.1 ▸ hj, ht.2⟩
  have hindb : v'.indirect b = 0 := by
    rw [Vol.indirect, hwordsb, Function.update_of_ne (by decide)]
  have hmapb : ∀ fb, v'.blockOf b fb = 0 := fun fb => by
    by_cases hfb : fb < sfsNdirect
    · rw [blockOf_direct hfb, hwordsb, Function.update_of_ne (by omega)]
    · rw [blockOf_entry hfb, entries_zero hindb]
  have htypeb : (v'.file b).type = sfsTypeFile := by
    change v'.inodeWords b 1 / 2 ^ 16 = _
    rw [hwordsb, Function.update_self]
    rfl
  have hlinkb : (v'.file b).linkcount = 0 := by
    change v'.inodeWords b 1 % 2 ^ 16 = _
    rw [hwordsb, Function.update_self]
    rfl
  have hnb : v'.fs.nblocks = v.fs.nblocks := congrArg sbNblocks hsb
  have hbits : v'.fs.freemapBits = v.fs.freemapBits := by
    unfold SfsFs.freemapBits
    rw [hnb]
  have hzero : v'.disk.sector sfsSuperBlock = v.disk.sector sfsSuperBlock :=
    hsector (.metadata 0) 0 h.zero_owns
  refine ⟨⟨by rw [hsb]; exact h.magic, h.exact.attach (.inode b) (d := b) ?_ (fun t c => ?_) (fun c => ?_), ?_, ?_, ?_,
    .inl h.root, ?_, ?_, ?_, ?_, ?_, ?_, ?_⟩, fun j hj => (hview j hj).2, htypeb, hlinkb,
    fun he => ?_⟩
  · rintro ⟨-, hm⟩
    rw [hb.2] at hm
    cases hm
  · cases t with
    | metadata k =>
      refine (and_congr_right fun _ => ?_).trans (or_iff_left fun he => by cases he.1).symm
      unfold IsMeta SfsFs.freemapBlocks
      rw [hbits]
    | inode j =>
      constructor
      · rintro ⟨rfl, hj | rfl⟩
        · exact .inl ⟨rfl, hj⟩
        · exact .inr ⟨rfl, rfl⟩
      · rintro (⟨rfl, hj⟩ | ⟨he, rfl⟩)
        · exact ⟨rfl, .inl hj⟩
        · injection he with he
          exact ⟨he, .inr he⟩
    | indirect j =>
      refine Iff.trans ?_ (or_iff_left fun he => by cases he.1).symm
      constructor
      · rintro ⟨hj | rfl, hc, h0⟩
        · exact ⟨hj, (congrFun (hwords j hj) 17).symm.trans hc, h0⟩
        · exact absurd (hc.symm.trans hindb) h0
      · rintro ⟨hj, hc, h0⟩
        exact ⟨.inl hj, (congrFun (hwords j hj) 17).trans hc, h0⟩
    | block j fb =>
      refine Iff.trans ?_ (or_iff_left fun he => by cases he.1).symm
      constructor
      · rintro ⟨hj | rfl, hc, h0⟩
        · exact ⟨hj, (congrFun (hview j hj).1 fb).symm.trans hc, h0⟩
        · exact absurd (hc.symm.trans (hmapb fb)) h0
      · rintro ⟨hj, hc, h0⟩
        exact ⟨.inl hj, (congrFun (hview j hj).1 fb).trans hc, h0⟩
  · unfold Marked
    rw [hnb, hfm]
    by_cases hc : c = b
    · rw [hc, Function.update_self]
      exact ⟨fun _ => .inr rfl, fun _ => ⟨hb.1, rfl⟩⟩
    · rw [Function.update_of_ne hc, or_iff_left hc]
  · rw [hnb, hbits, hfm]
    intro c hc hlt
    rw [Function.update_of_ne fun he => absurd hb.1 (by omega)]
    exact h.tail c hc hlt
  · rw [hnb, hbits]
    exact h.nblocks_le
  · rw [hnb, hdisk]
    exact h.fits
  · rintro j (hj | rfl)
    · rw [(hview j hj).2]
      exact h.type j hj
    · exact .inl htypeb
  · intro j hj
    by_cases hjb : j = b
    · exact .inr hjb
    · exact .inl (h.loaded j ((hmem j hjb).mp hj))
  · rw [hvn, List.nodup_append]
    refine ⟨h.nodup, by simp, fun j hj k hk => ?_⟩
    rw [List.mem_singleton.mp hk]
    exact hne j (h.loaded j hj)
  · intro j hj
    by_cases hjb : j = b
    · rw [hjb, hself, hs]
      exact Nat.one_pos
    · rw [hother j hjb]
      exact h.refs j ((hmem j hjb).mp hj)
  · intro j hj hd
    by_cases hjb : j = b
    · rw [hjb, hself, hs] at hd
      cases hd
    · have hjl := (hmem j hjb).mp hj
      rw [hother j hjb] at hd
      rw [SfsFs.inode, hother j hjb, hsector (.inode j) j ⟨rfl, h.loaded j hjl⟩]
      exact h.clean j hjl hd
  · rw [hfd]
    intro hf
    cases hf
  · rw [hsuper, hsb, hzero]
    exact h.super_clean
  · unfold Ended
    rw [hsb, hzero]
    exact he

variable (v') in
/-- **An inode without blocks is freed**, and its vnode leaves the table. -/
theorem Physical.destroy (h : v.Physical I) (hino : I ino) (hroot : ino ≠ sfsRootdirIno)
    (hind : v.indirect ino = 0) (hmap : ∀ fb, v.blockOf ino fb = 0) (hdisk : v'.disk = v.disk)
    (hsb : v'.fs.sb = v.fs.sb) (hsuper : v'.fs.superdirty = v.fs.superdirty)
    (hfm : v'.fs.freemap = Function.update v.fs.freemap ino false)
    (hfd : v'.fs.freemapdirty = true) (hvn : v'.fs.vnodes = v.fs.vnodes.erase ino)
    (hsv : v'.fs.sv = v.fs.sv) :
    v'.Physical (fun j => I j ∧ j ≠ ino) ∧ (∀ j, I j ∧ j ≠ ino → v'.file j = v.file j) ∧
      (v.Ended → v'.Ended) := by
  have hmem : ∀ j, j ≠ ino → (j ∈ v'.fs.vnodes ↔ j ∈ v.fs.vnodes) := fun j hj => by
    rw [hvn, List.mem_erase_of_ne hj]
  have hself : ino ∉ v'.fs.vnodes := by
    rw [hvn]
    exact h.nodup.not_mem_erase
  have hwords : ∀ j, j ≠ ino → v'.inodeWords j = v.inodeWords j := fun j hj => by
    unfold Vol.inodeWords SfsFs.inode
    rw [hsv, hdisk]
    exact congrArg words (if_congr (hmem j hj) rfl rfl)
  have hview : ∀ j, j ≠ ino → v'.blockOf j = v.blockOf j ∧ v'.file j = v.file j := fun j hj =>
    file_of_words (hwords j hj) fun _ _ _ _ => by rw [hdisk]
  have hnb : v'.fs.nblocks = v.fs.nblocks := congrArg sbNblocks hsb
  have hbits : v'.fs.freemapBits = v.fs.freemapBits := by
    unfold SfsFs.freemapBits
    rw [hnb]
  have hown : v.Owns I (.inode ino) ino := ⟨rfl, hino⟩
  refine ⟨⟨by rw [hsb]; exact h.magic, h.exact.release (· = ino) (fun t c => ?_) (fun c => ?_), ?_, ?_, ?_,
    ⟨h.root, hroot.symm⟩, ?_, ?_, ?_, ?_, ?_, ?_, ?_⟩, fun j hj => (hview j hj.2).2, fun he => ?_⟩
  · cases t with
    | metadata k =>
      have hmeta : v'.IsMeta c ↔ v.IsMeta c := by
        unfold IsMeta SfsFs.freemapBlocks
        rw [hbits]
      refine (and_congr_right fun _ => hmeta).trans (and_iff_left_of_imp fun hs => ?_).symm
      exact h.isMeta_ne_inode hino hs.2
    | inode j =>
      constructor
      · rintro ⟨rfl, hj, hne⟩
        exact ⟨⟨rfl, hj⟩, hne⟩
      · rintro ⟨⟨rfl, hj⟩, hne⟩
        exact ⟨rfl, hj, hne⟩
    | indirect j =>
      constructor
      · rintro ⟨⟨hj, hne⟩, hc, h0⟩
        have hs : v.Owns I (.indirect j) c := ⟨hj, (congrFun (hwords j hne) 17).symm.trans hc, h0⟩
        exact ⟨hs, h.ne_of_ne hs hown (by simp)⟩
      · rintro ⟨⟨hj, hc, h0⟩, -⟩
        have hne : j ≠ ino := by
          rintro rfl
          exact h0 (hc.symm.trans hind)
        exact ⟨⟨hj, hne⟩, (congrFun (hwords j hne) 17).trans hc, h0⟩
    | block j fb =>
      constructor
      · rintro ⟨⟨hj, hne⟩, hc, h0⟩
        have hs : v.Owns I (.block j fb) c := ⟨hj, (congrFun (hview j hne).1 fb).symm.trans hc, h0⟩
        exact ⟨hs, h.ne_of_ne hs hown (by simp)⟩
      · rintro ⟨⟨hj, hc, h0⟩, -⟩
        have hne : j ≠ ino := by
          rintro rfl
          exact h0 (hc.symm.trans (hmap fb))
        exact ⟨⟨hj, hne⟩, (congrFun (hview j hne).1 fb).trans hc, h0⟩
  · unfold Marked
    rw [hnb, hfm]
    by_cases hc : c = ino
    · rw [hc, Function.update_self]
      simp
    · rw [Function.update_of_ne hc, and_iff_left hc]
  · rw [hnb, hbits, hfm]
    intro c hc hlt
    rw [Function.update_of_ne fun he => absurd (h.exact.marked _ _ hown).1 (by omega)]
    exact h.tail c hc hlt
  · rw [hnb, hbits]
    exact h.nblocks_le
  · rw [hnb, hdisk]
    exact h.fits
  · rintro j ⟨hj, hne⟩
    rw [(hview j hne).2]
    exact h.type j hj
  · intro j hj
    have hne : j ≠ ino := fun he => hself (he ▸ hj)
    exact ⟨h.loaded j ((hmem j hne).mp hj), hne⟩
  · rw [hvn]
    exact h.nodup.erase ino
  · intro j hj
    have hne : j ≠ ino := fun he => hself (he ▸ hj)
    rw [hsv]
    exact h.refs j ((hmem j hne).mp hj)
  · intro j hj hd
    have hne : j ≠ ino := fun he => hself (he ▸ hj)
    rw [hsv] at hd
    rw [SfsFs.inode, hsv, hdisk]
    exact h.clean j ((hmem j hne).mp hj) hd
  · rw [hfd]
    intro hf
    cases hf
  · rw [hsuper, hsb, hdisk]
    exact h.super_clean
  · unfold Ended
    rw [hsb, hdisk]
    exact he

end Lemmas

/-- The inodes after a reference to the vnode of `ino` is given up. -/
def Remains (I : ℕ → Prop) (ino : ℕ) (v w : Vol) (j : ℕ) : Prop :=
  I j ∧ ¬ (j = ino ∧ (v.file ino).linkcount = 0 ∧ ino ∉ w.fs.vnodes)

/-- **A reference is given up**: the inode is freed if it has no names and its vnode is gone. -/
structure Released (I : ℕ → Prop) (ino : ℕ) (v w : Vol) : Prop where
  physical : w.Physical (Remains I ino v w)
  file : ∀ j, Remains I ino v w j → w.file j = v.file j
  vnodes : ∀ j, j ≠ ino → (j ∈ w.fs.vnodes ↔ j ∈ v.fs.vnodes)
  ended : v.Ended → w.Ended

/-- **The vnode of `ino` is loaded.** -/
structure Loaded (I : ℕ → Prop) (ino : ℕ) (v w : Vol) : Prop extends Steady I v w where
  vnodes : ∀ j, j ≠ ino → (j ∈ w.fs.vnodes ↔ j ∈ v.fs.vnodes)
  free : w.freeBlocks = v.freeBlocks

end Vol

namespace SfsFs

open Vol

section Table

variable {β : Type} {v w : Vol} {I : ℕ → Prop} {ino : ℕ} {R : Except FsErr β → Vol → Prop}

/-- Nothing is freed. -/
theorem Released.of_steady (h : Steady I v w)
    (hvnodes : ∀ j, j ≠ ino → (j ∈ w.fs.vnodes ↔ j ∈ v.fs.vnodes))
    (hkeep : (v.file ino).linkcount ≠ 0 ∨ ino ∈ w.fs.vnodes) : Released I ino v w := by
  have hI : Remains I ino v w = I := by
    funext j
    refine propext (and_iff_left ?_)
    rintro ⟨-, hl, hn⟩
    exact hkeep.elim (fun h0 => h0 hl) hn
  exact ⟨by rw [hI]; exact h.physical, fun j hj => h.file j hj.1, hvnodes, h.ended⟩

/-- The inode is freed. -/
theorem Released.of_gone (hlink : (v.file ino).linkcount = 0) (hgone : ino ∉ w.fs.vnodes)
    (hp : w.Physical fun j => I j ∧ j ≠ ino) (hfile : ∀ j, I j ∧ j ≠ ino → w.file j = v.file j)
    (hvnodes : ∀ j, j ≠ ino → (j ∈ w.fs.vnodes ↔ j ∈ v.fs.vnodes)) (hended : v.Ended → w.Ended) :
    Released I ino v w := by
  have hI : Remains I ino v w = fun j => I j ∧ j ≠ ino := by
    funext j
    exact propext (and_congr_right fun _ => not_congr (and_iff_left ⟨hlink, hgone⟩))
  refine ⟨by rw [hI]; exact hp, fun j hj => hfile j ?_, hvnodes, hended⟩
  rwa [hI] at hj

theorem returns_incref {f : Unit → SfsM β} : Returns (vnodeIncref ino >>= f) v R ↔ Returns (f ())
    ⟨v.fs.setSv ino { v.fs.sv ino with refcount := (v.fs.sv ino).refcount + 1 }, v.disk⟩ R :=
  returns_modify

/-- **`sfs_sync_inode`.** -/
theorem returns_syncInode (h : v.Physical I) (hload : ino ∈ v.fs.vnodes) {f : Unit → SfsM β} :
    Returns (sfsSyncInode ino >>= f) v R ↔
      Returns (f ()) (if (v.fs.sv ino).dirty then v.synced ino else v) R := by
  unfold sfsSyncInode
  rw [returns_bind, returns_get]
  split_ifs with hd
  · rw [returns_writeblock (h.lt_nsect (s := .inode ino) ⟨rfl, h.loaded ino hload⟩),
      returns_modify_last]
    rfl
  · rw [returns_pure]
    rfl

/-- After `sfs_sync_inode` the inode is clean. -/
theorem synced_clean (h : v.Physical I) (hload : ino ∈ v.fs.vnodes) :
    Steady I v (if (v.fs.sv ino).dirty then v.synced ino else v) ∧
      ((if (v.fs.sv ino).dirty then v.synced ino else v).fs.sv ino).dirty = false ∧
      (if (v.fs.sv ino).dirty then v.synced ino else v).fs.vnodes = v.fs.vnodes := by
  split_ifs with hd
  · refine ⟨h.synced hload, ?_, rfl⟩
    exact congrArg SfsVnode.dirty (sv_setSv ..)
  · exact ⟨Steady.refl h, eq_false_of_ne_true hd, rfl⟩

theorem returns_removeVnode (hload : ino ∈ v.fs.vnodes) {R : Except FsErr Unit → Vol → Prop} :
    Returns (removeVnode ino) v R ↔
      R (.ok ()) ⟨{ v.fs with vnodes := v.fs.vnodes.erase ino }, v.disk⟩ := by
  unfold removeVnode
  rw [returns_get, if_pos hload, returns_modify_last]

/-- The link count of an inode in memory. -/
theorem linkcount_inode (hload : ino ∈ v.fs.vnodes) :
    sfiLinkcount (v.fs.inode ino) = (v.file ino).linkcount := by
  change _ = v.inodeWords ino 1 % 2 ^ 16
  rw [inodeWords_loaded hload, words_of_lt (by decide)]
  rfl

theorem type_inode (hload : ino ∈ v.fs.vnodes) : sfiType (v.fs.inode ino) = (v.file ino).type := by
  change _ = v.inodeWords ino 1 / 2 ^ 16
  rw [inodeWords_loaded hload, words_of_lt (by decide)]
  rfl

theorem size_inode (hload : ino ∈ v.fs.vnodes) : sfiSize (v.fs.inode ino) = (v.file ino).size := by
  change _ = v.inodeWords ino 0
  rw [inodeWords_loaded hload, words_of_lt (by decide)]
  rfl

/-- **`sfs_reclaim`** of an inode that has names. -/
theorem returns_reclaim_named (h : v.Physical I) (hload : ino ∈ v.fs.vnodes)
    (hlink : (v.file ino).linkcount ≠ 0) :
    Returns (reclaimLast ino) v (Ends (fun _ w => Released I ino v w) fun _ _ => False) := by
  have hlink' : ¬ sfiLinkcount (v.fs.inode ino) = 0 := by
    rw [linkcount_inode hload]
    exact hlink
  unfold reclaimLast
  rw [returns_get, if_neg hlink', returns_bind, returns_pure]
  refine (returns_syncInode h hload).mpr (returns_get.mpr ?_)
  obtain ⟨hs, hclean, hvn⟩ := synced_clean h hload
  generalize (if (v.fs.sv ino).dirty then v.synced ino else v) = u at hs hclean hvn
  have hloadu : ino ∈ u.fs.vnodes := hvn ▸ hload
  have hlinku : ¬ sfiLinkcount (u.fs.inode ino) = 0 := by
    rw [linkcount_inode hloadu, hs.file ino (h.loaded ino hload)]
    exact hlink
  rw [if_neg hlinku, returns_bind, returns_pure]
  refine (returns_removeVnode hloadu).mpr ?_
  refine Released.of_steady (hs.trans (hs.physical.unload hloadu hclean rfl)) (fun j hj => ?_)
    (.inl hlink)
  change j ∈ u.fs.vnodes.erase ino ↔ _
  rw [List.mem_erase_of_ne hj, hvn]

/-- **`sfs_reclaim`** of an inode that has no names. -/
theorem returns_reclaim_unnamed (h : v.Physical I) (hload : ino ∈ v.fs.vnodes)
    (hroot : ino ≠ sfsRootdirIno) (hlink : (v.file ino).linkcount = 0) :
    Returns (reclaimLast ino) v (Ends (fun _ w => Released I ino v w) fun _ _ => False) := by
  have hino := h.loaded ino hload
  unfold reclaimLast
  rw [returns_get, if_pos (by rw [linkcount_inode hload]; exact hlink)]
  refine (returns_itrunc h hino hload 0).bind ?_
  rintro (e | _) u hu
  · exact hu.elim
  replace hu : Resized I ino 0 v u := hu
  have hloadu : ino ∈ u.fs.vnodes := hu.touch.vnodes ▸ hload
  refine (returns_syncInode hu.physical hloadu).mpr (returns_get.mpr ?_)
  obtain ⟨hs, -, hvn⟩ := synced_clean hu.physical hloadu
  have hind : (if (u.fs.sv ino).dirty then u.synced ino else u).indirect ino = 0 ∧
      ∀ fb, (if (u.fs.sv ino).dirty then u.synced ino else u).blockOf ino fb = 0 := by
    obtain ⟨hi, hmap⟩ := hu.empty rfl
    split_ifs
    · have hwords : (u.synced ino).inodeWords ino = u.inodeWords ino := by
        rw [inodeWords_loaded hloadu, inodeWords_loaded (v := u.synced ino) hloadu, inode_synced]
      refine ⟨(congrFun hwords 17).trans hi, fun fb => ?_⟩
      rw [blockOf_congr hwords fun h0 => absurd hi h0]
      exact hmap fb
    · exact ⟨hi, hmap⟩
  generalize (if (u.fs.sv ino).dirty then u.synced ino else u) = x at hs hvn hind
  have hloadx : ino ∈ x.fs.vnodes := hvn ▸ hloadu
  have hlinkx : (x.file ino).linkcount = 0 := by
    rw [hs.file ino hino]
    exact (congrArg (· % 2 ^ 16) hu.link).trans hlink
  have hown : x.Owns I (.inode ino) ino := ⟨rfl, hino⟩
  rw [if_pos (by rw [linkcount_inode hloadx]; exact hlinkx),
    returns_bfree (hs.physical.lt_bits hown) (hs.physical.exact.marked _ _ hown).2]
  refine (returns_removeVnode (v := x.release ino) hloadx).mpr ?_
  obtain ⟨hp, hfile, hended⟩ := hs.physical.destroy
    ⟨{ (x.release ino).fs with vnodes := x.fs.vnodes.erase ino }, x.disk⟩ hino hroot hind.1
    hind.2 rfl rfl rfl rfl rfl rfl rfl
  refine Released.of_gone hlink hs.physical.nodup.not_mem_erase hp (fun j hj => ?_) (fun j hj => ?_)
    (hended ∘ hs.ended ∘ hu.touch.ended)
  · exact (hfile j hj).trans ((hs.file j hj.1).trans (hu.touch.file hj.1 hj.2))
  · change j ∈ x.fs.vnodes.erase ino ↔ _
    rw [List.mem_erase_of_ne hj, hvn, hu.touch.vnodes]

/-- **`VOP_DECREF`.** -/
theorem returns_decref (h : v.Physical I) (hload : ino ∈ v.fs.vnodes)
    (hroot : ino = sfsRootdirIno → (v.file ino).linkcount ≠ 0) :
    Returns (vnodeDecref ino) v (Ends (fun _ w => Released I ino v w) fun _ _ => False) := by
  have hrefs := h.refs ino hload
  unfold vnodeDecref
  rw [returns_get, returns_kassert hrefs]
  split_ifs with hmore
  · refine returns_modify_last.mpr (Released.of_steady (h.set_refcount _ ?_ rfl) (fun _ _ => Iff.rfl)
      (.inr hload))
    omega
  · have hlast : (v.fs.sv ino).refcount = 1 := by omega
    rw [returns_bind, returns_status]
    unfold sfsReclaim
    rw [returns_get, if_neg (not_not.mpr hlast)]
    have hreclaim : Returns (reclaimLast ino) v
        (Ends (fun _ w => Released I ino v w) fun _ _ => False) := by
      by_cases hlink : (v.file ino).linkcount = 0
      · exact returns_reclaim_unnamed h hload (fun hr => hroot hr hlink) hlink
      · exact returns_reclaim_named h hload hlink
    refine hreclaim.mono ?_
    rintro (e | _) w hw
    · exact hw.elim
    · exact returns_pure.mpr hw

theorem returns_kmalloc {f : Bool → SfsM β} : Returns (kmalloc >>= f) v R ↔
    Returns (f (v.fs.memory 0)) ⟨{ v.fs with memory := fun n => v.fs.memory (n + 1) }, v.disk⟩ R := by
  unfold kmalloc
  rw [returns_bind, returns_get, returns_modify, returns_pure]
  rfl

/-- The search for a vnode. -/
theorem returns_findVnode (vnodes : List ℕ) (hmark : ∀ i ∈ vnodes, v.Marked i) {forcetype : ℕ}
    (hforce : forcetype = sfsTypeInval ∨ ino ∉ vnodes) {f : Bool → SfsM β} :
    Returns (findVnode ino forcetype vnodes >>= f) v R ↔
      if ino ∈ vnodes then Returns (f true) ⟨v.fs.setSv ino
        { v.fs.sv ino with refcount := (v.fs.sv ino).refcount + 1 }, v.disk⟩ R
      else Returns (f false) v R := by
  induction vnodes with
  | nil =>
    rw [findVnode, returns_bind, returns_pure, if_neg List.not_mem_nil]
    rfl
  | cons i vnodes ih =>
    have hi := hmark i (List.mem_cons_self ..)
    rw [findVnode, bind_assoc, returns_bused hi.1, hi.2, if_neg (by decide)]
    by_cases he : i = ino
    · have htype := hforce.resolve_right fun hn => hn (he ▸ List.mem_cons_self ..)
      rw [if_pos he, if_pos (he ▸ List.mem_cons_self ..)]
      simp only [bind_assoc]
      rw [returns_kassert htype, returns_incref, pure_bind]
    · have hmem : ino ∈ i :: vnodes ↔ ino ∈ vnodes := by
        rw [List.mem_cons, or_iff_right fun hn => he hn.symm]
      rw [if_neg he, ih (fun j hj => hmark j (List.mem_cons_of_mem i hj))
        (hforce.imp_right fun hn hm => hn (List.mem_cons_of_mem i hm))]
      simp only [hmem]

/-- The vnode of an inode that is loaded, with its type if it is forced. -/
def loadedVnode (data : Buffer) (forcetype : ℕ) : SfsVnode :=
  if forcetype = sfsTypeInval then ⟨data, false, 1⟩ else ⟨setType data forcetype, true, 1⟩

theorem setSv_setSv (m : SfsFs) (s s' : SfsVnode) : (m.setSv ino s).setSv ino s' = m.setSv ino s' := by
  unfold SfsFs.setSv
  simp only [Function.update_idem]

theorem setSv_self (m : SfsFs) : m.setSv ino (m.sv ino) = m := by
  unfold SfsFs.setSv
  rw [Function.update_eq_self]

/-- The type of a vnode that is loaded. -/
theorem returns_loadType {m : SfsFs} {d : Disk} {data : Buffer} {forcetype : ℕ}
    (hforce : forcetype = sfsTypeInval ∨ sfiType data = sfsTypeInval)
    (htype : sfiType (loadedVnode data forcetype).inode = sfsTypeFile ∨
      sfiType (loadedVnode data forcetype).inode = sfsTypeDir) {f : Unit → SfsM β} :
    Returns (loadType ino forcetype >>= f) ⟨m.setSv ino ⟨data, false, 1⟩, d⟩ R ↔
      Returns (f ()) ⟨m.setSv ino (loadedVnode data forcetype), d⟩ R := by
  have hinode : ∀ s : SfsVnode, (m.setSv ino s).inode ino = s.inode := fun s =>
    congrArg SfsVnode.inode (sv_setSv ..)
  unfold loadType loadedVnode at *
  rw [returns_bind]
  by_cases h0 : forcetype = sfsTypeInval
  · rw [if_pos h0] at htype ⊢
    rw [if_neg (not_not.mpr h0), returns_bind, returns_pure]
    refine returns_get.trans ?_
    rw [hinode, if_pos htype, returns_pure]
    rfl
  · rw [if_neg h0] at htype ⊢
    rw [if_pos h0, returns_bind, returns_get, hinode, returns_kassert (hforce.resolve_left h0),
      returns_modify_last]
    have hset : (m.setSv ino ⟨data, false, 1⟩).setInode ino
        (setType ((m.setSv ino ⟨data, false, 1⟩).inode ino) forcetype) =
          m.setSv ino ⟨setType data forcetype, true, 1⟩ := by
      rw [hinode, SfsFs.setInode, sv_setSv, setSv_setSv]
    refine returns_get.trans ?_
    rw [hset, hinode, if_pos htype, returns_pure]
    rfl

/-- `sfs_loadvnode` of an inode that is not resident. -/
theorem returns_loadInode (hmark : v.Marked ino) (hfits : ino < v.disk.nsect) {forcetype : ℕ}
    (hforce : forcetype = sfsTypeInval ∨ sfiType (clip (v.disk.sector ino)) = sfsTypeInval)
    (htype : sfiType (loadedVnode (clip (v.disk.sector ino)) forcetype).inode = sfsTypeFile ∨
      sfiType (loadedVnode (clip (v.disk.sector ino)) forcetype).inode = sfsTypeDir) :
    Returns (loadInode ino forcetype) v (Ends
      (fun _ w => ∃ memory, w = ⟨{ v.fs.setSv ino (loadedVnode (clip (v.disk.sector ino)) forcetype) with
        memory := memory, vnodes := v.fs.vnodes ++ [ino] }, v.disk⟩)
      fun e w => e = .enomem ∧ (v.fs.memory 0 = false ∨ v.fs.memory 1 = false) ∧ ∃ s memory, w =
        ⟨{ v.fs.setSv ino s with memory := memory }, v.disk⟩) := by
  unfold loadInode
  rw [returns_kmalloc]
  split_ifs with hgot
  · refine returns_throw.mpr ⟨rfl, .inl hgot, v.fs.sv ino, fun n => v.fs.memory (n + 1), ?_⟩
    rw [setSv_self]
  refine (returns_bused ?_).mpr ?_
  · exact hmark.1
  change Returns (if v.fs.freemap ino = false then _ else _) _ _
  rw [hmark.2, if_neg (by decide)]
  refine (returns_readblock ?_).mpr (returns_modify.mpr ?_)
  · exact hfits
  refine (returns_loadType hforce htype).mpr (returns_kmalloc.mpr ?_)
  split_ifs with hgot'
  · exact returns_throw.mpr ⟨rfl, .inr hgot', _, _, rfl⟩
  · exact returns_modify_last.mpr ⟨_, rfl⟩

/-- **`sfs_loadvnode`** of an inode. -/
theorem returns_loadvnode (h : v.Physical I) (hino : I ino) :
    Returns (sfsLoadvnode ino sfsTypeInval) v (Ends
      (fun _ w => Loaded I ino v w ∧ ino ∈ w.fs.vnodes)
      fun e w => Steady I v w ∧ w.fs.vnodes = v.fs.vnodes ∧ e = .enomem ∧
        (v.fs.memory 0 = false ∨ v.fs.memory 1 = false)) := by
  unfold sfsLoadvnode
  rw [returns_get, returns_findVnode _ (fun i hi => h.marked_inode (h.loaded i hi)) (.inl rfl)]
  by_cases hload : ino ∈ v.fs.vnodes
  · rw [if_pos hload]
    exact returns_pure.mpr ⟨⟨h.set_refcount _ (Nat.succ_pos _) rfl, fun _ _ => Iff.rfl, rfl⟩, hload⟩
  rw [if_neg hload]
  change Returns (loadInode ino sfsTypeInval) v _
  -- the type is that of the inode on the disk
  have htype : sfiType (clip (v.disk.sector ino)) = (v.file ino).type := by
    change _ = v.inodeWords ino 1 / 2 ^ 16
    rw [inodeWords_unloaded hload, ← words_clip, words_of_lt (by decide)]
    rfl
  refine (returns_loadInode (h.marked_inode hino) (h.lt_nsect (s := .inode ino) ⟨rfl, hino⟩) (.inl rfl)
    (by rw [loadedVnode, if_pos rfl, htype]; exact h.type ino hino)).mono ?_
  rintro (e | _) w hw
  · obtain ⟨he, hmem, s, memory, rfl⟩ := hw
    exact ⟨h.scratch hload rfl, rfl, he, hmem⟩
  · obtain ⟨memory, rfl⟩ := hw
    refine ⟨⟨h.load hino hload rfl, fun j hj => ?_, rfl⟩,
      List.mem_append_right _ (List.mem_singleton_self _)⟩
    change j ∈ v.fs.vnodes ++ [ino] ↔ _
    rw [List.mem_append, or_iff_left fun he => hj (List.mem_singleton.mp he)]

/-- **`sfs_makeobj`.** -/
theorem returns_makeobj (h : v.Physical I) : Returns (sfsMakeobj sfsTypeFile) v (Ends
    (fun b w => ¬ I b ∧ w.Physical (fun j => I j ∨ j = b) ∧ (∀ j, I j → w.file j = v.file j) ∧
      (w.file b).type = sfsTypeFile ∧ (w.file b).linkcount = 0 ∧
      w.fs.vnodes = v.fs.vnodes ++ [b] ∧ v.freeBlocks.card = w.freeBlocks.card + 1 ∧
      (v.Ended → w.Ended))
    fun e w => Steady I v w ∧ w.fs.vnodes = v.fs.vnodes ∧ (e = .enospc ∧ v.freeBlocks.card = 0 ∨
      e = .enomem ∧ (v.fs.memory 0 = false ∨ v.fs.memory 1 = false))) := by
  unfold sfsMakeobj
  refine (returns_balloc h).bind ?_
  rintro r w (⟨rfl, rfl, hfull⟩ | ⟨b, rfl, hb, rfl⟩)
  · exact ⟨Steady.refl h, rfl, .inl ⟨rfl, hfull⟩⟩
  have hnew := h.not_inode_of_free hb
  have hload : b ∉ v.fs.vnodes := fun hl => hnew (h.loaded b hl)
  have hzero : clip ((v.alloc b).disk.sector b) = fun _ => 0 := by
    rw [show (v.alloc b).disk.sector b = fun _ => 0 from Function.update_self .., clip_zero]
  have hmark : (v.alloc b).fs.freemap b = true := Function.update_self ..
  have hvnodes : ∀ i ∈ (v.alloc b).fs.vnodes, (v.alloc b).Marked i := fun i hi => by
    have hm := h.marked_inode (h.loaded i hi)
    exact ⟨hm.1, (Function.update_of_ne (fun he => hload (by rw [← he]; exact hi)) ..).trans hm.2⟩
  change Returns (status (sfsLoadvnode b sfsTypeFile) >>= _) (v.alloc b) _
  rw [returns_bind, returns_status]
  unfold sfsLoadvnode
  rw [returns_get, returns_findVnode _ hvnodes (.inr hload),
    if_neg (show b ∉ (v.alloc b).fs.vnodes from hload)]
  change Returns (loadInode b sfsTypeFile) (v.alloc b) _
  refine (returns_loadInode (v := v.alloc b) ⟨hb.1, hmark⟩ (lt_of_lt_of_le hb.1 h.fits) (.inr ?_)
    (.inl ?_)).mono ?_
  · rw [hzero, sfiType, word_zero]
    rfl
  · rw [hzero]
    decide
  rintro (e | _) w hw
  · -- the block is given back
    obtain ⟨he, hmem, s, memory, rfl⟩ := hw
    change Returns (sfsBfree b >>= _) _ _
    refine (returns_bfree ?_ ?_).mpr (returns_throw.mpr ?_)
    · exact lt_of_lt_of_le hb.1 h.nblocks_le
    · exact hmark
    refine ⟨h.unmake hb rfl rfl rfl ?_ rfl rfl ?_, rfl, .inr ⟨he, hmem⟩⟩
    · change Function.update (Function.update v.fs.freemap b true) b false = v.fs.freemap
      rw [Function.update_idem, ← hb.2, Function.update_eq_self]
    · intro j hj
      have hne : j ≠ b := fun he => hload (he ▸ hj)
      exact Function.update_of_ne hne ..
  · obtain ⟨memory, rfl⟩ := hw
    refine returns_pure.mpr ⟨hnew, ?_⟩
    rw [hzero]
    obtain ⟨hp, hfile, htype, hlink, hended⟩ := h.create
      ⟨{ (v.alloc b).fs.setSv b (loadedVnode (fun _ => 0) sfsTypeFile) with
        memory := memory, vnodes := v.fs.vnodes ++ [b] }, (v.alloc b).disk⟩
      (s := loadedVnode (fun _ => 0) sfsTypeFile) hb rfl rfl rfl rfl rfl rfl rfl rfl
    exact ⟨hp, hfile, htype, hlink, rfl, (card_freeBlocks_alloc hb).symm, hended⟩

end Table

end SfsFs

end Os161
