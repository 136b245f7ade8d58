import Os161.Lib.Slots
import Os161.Semfs.Creat

set_option autoImplicit false

/-!
# The undo labels of semfs_creat

What each part of `semfs_creat` leaves behind.

* `SemfsMem.Inv`, **`inv_run`**: what holds between the directory, the semaphores and the vnodes.
* `SemfsMem.Opened`: the state in which the vnode of a new semaphore is made.
* **`semfsCreat_iff`**: the call is all-or-nothing if and only if `semfs_direntry_create` is not what
  fails.
-/

namespace Os161

open Transition Slots

namespace SemfsMem

/-- The vnodes are those of the semaphores with `sems_hasvnode`, and the root's. -/
structure VnodesOk (sems : ℕ → Option SemObj) (vnodes : List SemfsVnode) : Prop where
  iff : ∀ n, n ≠ semfsRootdir →
    (n ∈ vnodes.map SemfsVnode.semvSemnum ↔ ∃ sem, sems n = some sem ∧ sem.hasvnode = true)
  nodup : (vnodes.map SemfsVnode.semvSemnum).Nodup

/-- The entries are of different semaphores, which are linked. -/
structure EntriesOk (dents : ℕ → Option DirentryObj) (sems : ℕ → Option SemObj) : Prop where
  linked : ∀ i d, dents i = some d → ∃ sem, sems d.semdSemnum = some sem ∧ sem.linked = true
  inj : ∀ i j d d', dents i = some d → dents j = some d' → d.semdSemnum = d'.semdSemnum → i = j

/-- **What holds between the calls.** -/
structure Inv (s : SemfsMem) : Prop where
  entries : EntriesOk (slot s.dents) (slot s.sems)
  vnodes : VnodesOk (slot s.sems) s.vnodes
  size : 4 * s.sems.length ≤ maxMemory

/-- The directory, the semaphores and the vnodes are the same, and so are the blocks that are
allocated. -/
structure Same (s s' : SemfsMem) : Prop where
  dents : slot s'.dents = slot s.dents
  sems : slot s'.sems = slot s.sems
  vnodes : s'.vnodes = s.vnodes
  live : s'.live = s.live

/-- `a` is the vnode of the semaphore that is linked under the name. -/
def LinkedVnode (s : SemfsMem) (name : List UInt8) (a : ℕ) : Prop :=
  ∃ i d sem v, slot s.dents i = some d ∧ d.semdName = name ∧ slot s.sems d.semdSemnum = some sem ∧
    sem.linked = true ∧ sem.hasvnode = true ∧ v ∈ s.vnodes ∧ v.semvSemnum = d.semdSemnum ∧ v.addr = a

/-- **All or nothing**: `0` is returned exactly when `*resultvn` is the vnode of the semaphore under the
name, and after an error everything is as before. -/
def AllOrNothing (s : SemfsMem) (name : List UInt8) : Result → Prop := fun (e, vn, s') =>
  (e = none ↔ ∃ a, vn = some a ∧ s'.LinkedVnode name a) ∧ (e ≠ none → Same s s')

/-- There is a slot for a semaphore. -/
def SemRoom (ok : Bool) (sems : List (Option SemObj)) : Prop :=
  none ∈ sems ∨ ok = true ∧ 4 * (sems.length + 1) ≤ maxMemory

/-- `semfs_direntry_create` is called, and there is no memory for the entry or its name. -/
def DirentryFails (s : SemfsMem) (name : List UInt8) (b : CreatBlocks) : Prop :=
  name ≠ [46] ∧ name ≠ [46, 46] ∧ (∀ d, some d ∈ s.dents → d.semdName ≠ name) ∧ b.SemBlocks ∧
    SemRoom b.sems s.sems ∧ ¬ NamedBlocks b.dent b.dentName name.length

section Parts

variable {s s' : SemfsMem} {name : List UInt8} {b : CreatBlocks} {semnum : ℕ}

theorem lt_semfsRootdir {n : ℕ} (h : 4 * n ≤ maxMemory) : n < semfsRootdir := by
  unfold maxMemory semfsRootdir at *
  omega

/-- **`semfs_sem_insert`** fills an empty slot, if it can have one. -/
theorem semfsSemInsert_cases (ok : Bool) {sems : List (Option SemObj)} (sem : SemObj)
    (hsize : 4 * sems.length ≤ maxMemory) :
    (∃ sems' n, semfsSemInsert ok sems sem = .ok (sems', n) ∧ SemRoom ok sems ∧
      slot sems n = none ∧ slot sems' = Function.update (slot sems) n (some sem) ∧
      n < sems'.length ∧ 4 * sems'.length ≤ maxMemory) ∨
    (∃ e, semfsSemInsert ok sems sem = .error e) ∧ ¬ SemRoom ok sems := by
  have hmem : none ∈ sems ↔ sems.findIdx Option.isNone < sems.length := by
    rw [List.findIdx_lt_length]
    exact ⟨fun h => ⟨none, h, rfl⟩, fun ⟨x, hx, hn⟩ => Option.isNone_iff_eq_none.mp hn ▸ hx⟩
  unfold semfsSemInsert SemRoom
  rw [if_neg (Nat.ne_of_lt (lt_semfsRootdir hsize)), hmem]
  simp only
  split_ifs with hlt
  · refine .inl ⟨_, _, rfl, .inl hlt, slot_findIdx sems, slot_set hlt _, ?_, ?_⟩
    · rwa [List.length_set]
    · rwa [List.length_set]
  · unfold arrayAdd
    split_ifs with hadd
    · refine .inl ⟨_, _, rfl, .inr hadd, slot_of_le (le_refl _), slot_append _ _, ?_, ?_⟩
      · rw [List.length_append]
        exact Nat.lt_succ_self _
      · rw [List.length_append]
        exact hadd.2
    · exact .inr ⟨⟨_, rfl⟩, fun h => h.elim hlt hadd⟩

/-- `sems_hasvnode` is set for a semaphore. -/
theorem setHasvnode_eq (hsize : 4 * s.sems.length ≤ maxMemory)
    (h : semnum ≠ semfsRootdir → ∃ sem, slot s.sems semnum = some sem ∧ sem.hasvnode = false) :
    ∃ sems, s.setHasvnode semnum = .ok { s with sems := sems } ∧ sems.length = s.sems.length ∧
      slot sems = Function.update (slot s.sems) semnum
        ((slot s.sems semnum).map fun sem => sem.setHasvnode true) := by
  unfold setHasvnode
  split_ifs with hroot
  · refine ⟨s.sems, rfl, rfl, ?_⟩
    have hnone : slot s.sems semnum = none :=
      slot_of_le (hroot ▸ Nat.le_of_lt (lt_semfsRootdir hsize))
    rw [hnone, Option.map_none, ← hnone, Function.update_eq_self]
  · obtain ⟨sem, hsem, hno⟩ := h hroot
    rw [slot_eq_some.mp hsem]
    refine ⟨_, kassert_bind hno, List.length_set, ?_⟩
    rw [hsem]
    exact slot_set (lt_of_slot hsem) _

/-- What `semfs_getvnode` does: the vnode is in the table, or none can be made, or a new one is. -/
inductive Getvnode (s : SemfsMem) (semnum : ℕ) : Result → Prop
  | found (i : ℕ) (v : SemfsVnode) (hv : s.vnodes[i]? = some v) (hn : v.semvSemnum = semnum) :
    Getvnode s semnum (none, some v.addr, { s with vnodes := s.vnodes.modify i SemfsVnode.incref })
  | failed (hno : semnum ∉ s.vnodes.map SemfsVnode.semvSemnum) :
    Getvnode s semnum (some .enomem, none, s)
  | made (v : SemfsVnode) (sems : List (Option SemObj)) (live : Finset ℕ)
    (hno : semnum ∉ s.vnodes.map SemfsVnode.semvSemnum) (hn : v.semvSemnum = semnum)
    (hlen : sems.length = s.sems.length)
    (hsems : slot sems = Function.update (slot s.sems) semnum
      ((slot s.sems semnum).map fun sem => sem.setHasvnode true)) :
    Getvnode s semnum (none, some v.addr, ⟨s.dents, sems, s.vnodes ++ [v], live⟩)

/-- **`semfs_getvnode`** does not panic where a semaphore without a vnode is there. -/
theorem semfsGetvnode_cases (x : Option FreeBlock) (ok : Bool)
    (hsize : 4 * s.sems.length ≤ maxMemory)
    (h : semnum ≠ semfsRootdir → semnum ∉ s.vnodes.map SemfsVnode.semvSemnum →
      ∃ sem, slot s.sems semnum = some sem ∧ sem.hasvnode = false) :
    ∃ r, s.semfsGetvnode semnum x ok = .ok r ∧ Getvnode s semnum r := by
  unfold semfsGetvnode
  simp only
  cases hv : s.vnodes[s.vnodes.findIdx fun v => v.semvSemnum = semnum]? with
  | some v =>
    obtain ⟨hlt, hget⟩ := List.getElem?_eq_some_iff.mp hv
    refine ⟨_, rfl, .found _ v hv ?_⟩
    have := List.findIdx_getElem (w := hlt)
    rw [hget] at this
    exact of_decide_eq_true this
  | none =>
    have hno : semnum ∉ s.vnodes.map SemfsVnode.semvSemnum := by
      rintro hmem
      obtain ⟨v, hv', hn⟩ := List.mem_map.mp hmem
      have := List.findIdx_lt_length_of_exists (p := fun v => decide (v.semvSemnum = semnum))
        ⟨v, hv', decide_eq_true hn⟩
      exact absurd (List.getElem?_eq_none_iff.mp hv) (Nat.not_le_of_lt this)
    rcases semfsVnodeCreate_cases x semnum s.live with ⟨a, live, hc, hd⟩ | hc
    · rw [hc]
      simp only
      cases hadd : arrayAdd ok s.vnodes ⟨a, semnum, 1⟩ with
      | none => exact ⟨_, bind_eq_ok.mpr ⟨_, hd, rfl⟩, .failed hno⟩
      | some r =>
        obtain ⟨vnodes, k⟩ := r
        unfold arrayAdd at hadd
        split_ifs at hadd
        cases hadd
        obtain ⟨sems, hset, hlen, hslot⟩ := setHasvnode_eq
          (s := { s with vnodes := s.vnodes ++ [⟨a, semnum, 1⟩], live := live }) hsize
          fun hroot => h hroot hno
        exact ⟨_, bind_eq_ok.mpr ⟨_, hset, rfl⟩, .made ⟨a, semnum, 1⟩ sems live hno rfl hlen hslot⟩
    · rw [hc]
      exact ⟨_, rfl, .failed hno⟩

end Parts

/-! ## The labels -/

/-- The semaphore is in slot `semnum`, and nothing else has changed. -/
structure Inserted (s s₁ : SemfsMem) (sem : SemObj) (semnum : ℕ) : Prop where
  free : slot s.sems semnum = none
  sems : slot s₁.sems = Function.update (slot s.sems) semnum (some sem)
  lt : semnum < s₁.sems.length
  size : 4 * s₁.sems.length ≤ maxMemory
  vnodes : s₁.vnodes = s.vnodes
  sem_eq : sem.toSemfsSem = ⟨false, false⟩

/-- The entry is in slot `empty`, too. -/
structure Opened (s s₁ : SemfsMem) (name : List UInt8) (sem : SemObj) (semnum : ℕ)
    (dent : DirentryObj) (empty : ℕ) : Prop extends Inserted s s₁ sem semnum where
  dentFree : slot s.dents empty = none
  dents : slot s₁.dents = Function.update (slot s.dents) empty (some dent)
  dentLt : empty < s₁.dents.length
  dent_eq : dent.toSemfsDirentry = ⟨name, semnum⟩
  undo : ∃ live, semfsDirentryDestroy dent s₁.live = .ok live ∧
    semfsSemDestroy sem live = .ok s.live

/-- After a call that has created a semaphore. -/
structure Created (s s' : SemfsMem) (name : List UInt8) (sem : SemObj) (dent : DirentryObj)
    (empty : ℕ) (v : SemfsVnode) : Prop where
  free : slot s.sems v.semvSemnum = none
  sems : slot s'.sems = Function.update (slot s.sems) v.semvSemnum (some sem)
  size : 4 * s'.sems.length ≤ maxMemory
  sem_eq : sem.toSemfsSem = ⟨true, true⟩
  dentFree : slot s.dents empty = none
  dents : slot s'.dents = Function.update (slot s.dents) empty (some dent)
  dent_eq : dent.toSemfsDirentry = ⟨name, v.semvSemnum⟩
  root : v.semvSemnum ≠ semfsRootdir
  vnodes : s'.vnodes = s.vnodes ++ [v]

/-- How a call ends when it is not `semfs_direntry_create` that fails. -/
inductive Outcome (s : SemfsMem) (name : List UInt8) : Result → Prop
  | failed (e : FsErr) (s' : SemfsMem) (h : Same s s') (hsize : 4 * s'.sems.length ≤ maxMemory) :
    Outcome s name (some e, none, s')
  | existing (i : ℕ) (dent : DirentryObj) (r : Result) (hdent : slot s.dents i = some dent)
    (hname : dent.semdName = name) (h : Getvnode s dent.semdSemnum r) : Outcome s name r
  | created (s' : SemfsMem) (sem : SemObj) (dent : DirentryObj) (empty : ℕ) (v : SemfsVnode)
    (h : Created s s' name sem dent empty v) : Outcome s name (none, some v.addr, s')

section Labels

variable {s s₁ : SemfsMem} {name : List UInt8} {b : CreatBlocks} {sem : SemObj} {semnum empty : ℕ}
  {dent : DirentryObj} {live : Finset ℕ}

/-- **`fail_uninsert`** leads back. -/
theorem failUninsert_eq (h : Inserted s s₁ sem semnum) (hdents : slot s₁.dents = slot s.dents)
    (hlive : semfsSemDestroy sem s₁.live = .ok s.live) (e : Option FsErr) :
    ∃ s', s₁.failUninsert e none sem semnum = .ok (e, none, s') ∧ Same s s' ∧
      4 * s'.sems.length ≤ maxMemory := by
  refine ⟨_, bind_eq_ok.mpr ⟨_, hlive, rfl⟩, ⟨hdents, ?_, h.vnodes, rfl⟩, ?_⟩
  · change slot (s₁.sems.set semnum none) = slot s.sems
    rw [slot_set h.lt, h.sems, update_none_of_update h.free]
  · change 4 * (s₁.sems.set semnum none).length ≤ maxMemory
    rw [List.length_set]
    exact h.size

/-- **`fail_undent`** leads back. -/
theorem failUndent_eq (h : Inserted s s₁ sem semnum) (hdents : slot s₁.dents = slot s.dents)
    (hdent : semfsDirentryDestroy dent s₁.live = .ok live)
    (hlive : semfsSemDestroy sem live = .ok s.live) (e : Option FsErr) :
    ∃ s', s₁.failUndent e none sem semnum dent = .ok (e, none, s') ∧ Same s s' ∧
      4 * s'.sems.length ≤ maxMemory := by
  have hins : Inserted s { s₁ with live := live } sem semnum :=
    ⟨h.free, h.sems, h.lt, h.size, h.vnodes, h.sem_eq⟩
  obtain ⟨s', hs', hsame⟩ := failUninsert_eq hins hdents hlive e
  exact ⟨s', bind_eq_ok.mpr ⟨_, hdent, hs'⟩, hsame⟩

/-- **`fail_undir`** leads back. -/
theorem failUndir_eq (h : Opened s s₁ name sem semnum dent empty) (e : Option FsErr) :
    ∃ s', s₁.failUndir e none sem semnum dent empty = .ok (e, none, s') ∧ Same s s' ∧
      4 * s'.sems.length ≤ maxMemory := by
  obtain ⟨live, hdent, hlive⟩ := h.undo
  have hins : Inserted s { s₁ with dents := s₁.dents.set empty none } sem semnum :=
    ⟨h.free, h.sems, h.lt, h.size, h.vnodes, h.sem_eq⟩
  refine failUndent_eq hins ?_ hdent hlive e
  change slot (s₁.dents.set empty none) = slot s.dents
  rw [slot_set h.dentLt, h.dents, update_none_of_update h.dentFree]

/-- A semaphore that is not there has no vnode. -/
theorem VnodesOk.not_mem {sems : ℕ → Option SemObj} {vnodes : List SemfsVnode}
    (h : VnodesOk sems vnodes) (hroot : semnum ≠ semfsRootdir) (hfree : sems semnum = none) :
    semnum ∉ vnodes.map SemfsVnode.semvSemnum := fun hmem => by
  obtain ⟨sem, hsem, -⟩ := (h.iff semnum hroot).mp hmem
  rw [hfree] at hsem
  cases hsem

/-- **The vnode of a new semaphore** is made, or everything leads back. -/
theorem creatVnode_cases (hv : VnodesOk (slot s.sems) s.vnodes)
    (h : Opened s s₁ name sem semnum dent empty) :
    ∃ r, s₁.creatVnode b sem semnum dent empty = .ok r ∧ Outcome s name r := by
  have hroot : semnum ≠ semfsRootdir :=
    Nat.ne_of_lt (lt_semfsRootdir (Nat.le_trans (by have := h.lt; omega) h.size))
  have hno : semnum ∉ s₁.vnodes.map SemfsVnode.semvSemnum := by
    rw [h.vnodes]
    exact hv.not_mem hroot h.free
  have hsem : slot s₁.sems semnum = some sem := by rw [h.sems, Function.update_self]
  obtain ⟨r, hr, hget⟩ := semfsGetvnode_cases (s := s₁) b.vnode b.vnodes h.size fun _ _ =>
    ⟨sem, hsem, by rw [h.sem_eq]⟩
  cases hget with
  | found i v hv' hn =>
    exact absurd (List.mem_map.mpr ⟨v, List.mem_of_getElem? hv', hn⟩) hno
  | failed =>
    obtain ⟨s', hs', hsame, hsize⟩ := failUndir_eq h (some .enomem)
    exact ⟨_, bind_eq_ok.mpr ⟨_, hr, hs'⟩, .failed _ s' hsame hsize⟩
  | made v sems live _ hn hlen hsems =>
    refine ⟨_, bind_eq_ok.mpr ⟨_, hr, rfl⟩,
      .created _ (sem.setHasvnode true).link dent empty v ⟨?_, ?_, ?_, ?_, h.dentFree, h.dents, ?_,
        ?_, ?_⟩⟩
    · rw [hn]
      exact h.free
    · change slot (sems.modify semnum _) = _
      rw [slot_modify, hsems, Function.update_self, Function.update_idem, hsem, h.sems,
        Function.update_idem, hn]
      rfl
    · change 4 * (sems.modify semnum _).length ≤ maxMemory
      rw [List.length_modify, hlen]
      exact h.size
    · rfl
    · rw [hn]
      exact h.dent_eq
    · rw [hn]
      exact hroot
    · change s₁.vnodes ++ [v] = _
      rw [h.vnodes]

/-- **The entry of a new semaphore** is made, or everything leads back; but when there is no memory for
it, `0` is returned. -/
theorem creatDent_cases (hv : VnodesOk (slot s.sems) s.vnodes) (h : Inserted s s₁ sem semnum)
    (hdents : s₁.dents = s.dents) (hlive : semfsSemDestroy sem s₁.live = .ok s.live) :
    ∃ r, s₁.creatDent b name sem semnum = .ok r ∧
      ((∃ s', r = (none, none, s') ∧ Same s s' ∧ 4 * s'.sems.length ≤ maxMemory ∧
        ¬ NamedBlocks b.dent b.dentName name.length) ∨
      NamedBlocks b.dent b.dentName name.length ∧ Outcome s name r) := by
  rcases semfsDirentryCreate_cases b.dent b.dentName name semnum s₁.live with
    ⟨dent, live, hc, hb, hdent, hd⟩ | ⟨hc, hb⟩
  · have hfree : slot s.dents (s₁.dents.findIdx Option.isNone) = none := by
      rw [hdents]
      exact slot_findIdx _
    by_cases hlt : s₁.dents.findIdx Option.isNone < s₁.dents.length
    · have hopen : Opened s ⟨s₁.dents.set (s₁.dents.findIdx Option.isNone) (some dent), s₁.sems,
          s₁.vnodes, live⟩ name sem semnum dent (s₁.dents.findIdx Option.isNone) :=
        ⟨⟨h.free, h.sems, h.lt, h.size, h.vnodes, h.sem_eq⟩, hfree, by rw [slot_set hlt, hdents],
          by rwa [List.length_set], hdent, s₁.live, hd, hlive⟩
      obtain ⟨r, hr, hout⟩ := creatVnode_cases (b := b) hv hopen
      exact ⟨r, bind_eq_ok.mpr ⟨_, hc, (if_pos hlt).trans hr⟩, .inr ⟨hb, hout⟩⟩
    · cases hadd : arrayAdd b.dents s₁.dents (some dent) with
      | none =>
        have hins : Inserted s { s₁ with live := live } sem semnum :=
          ⟨h.free, h.sems, h.lt, h.size, h.vnodes, h.sem_eq⟩
        obtain ⟨s', hs', hsame, hsize⟩ := failUndent_eq hins (congrArg slot hdents) hd hlive
          (some .enomem)
        refine ⟨_, bind_eq_ok.mpr ⟨_, hc, (if_neg hlt).trans ?_⟩,
          .inr ⟨hb, .failed .enomem s' hsame hsize⟩⟩
        rw [hadd]
        exact hs'
      | some x =>
        obtain ⟨dents, empty⟩ := x
        have hx := hadd
        unfold arrayAdd at hx
        split_ifs at hx
        cases hx
        have hopen : Opened s ⟨s₁.dents ++ [some dent], s₁.sems, s₁.vnodes, live⟩ name sem semnum
            dent s₁.dents.length :=
          ⟨⟨h.free, h.sems, h.lt, h.size, h.vnodes, h.sem_eq⟩,
            slot_of_le (by rw [hdents]), by rw [slot_append, hdents],
            by rw [List.length_append]; exact Nat.lt_succ_self _, hdent, s₁.live, hd, hlive⟩
        obtain ⟨r, hr, hout⟩ := creatVnode_cases (b := b) hv hopen
        refine ⟨r, bind_eq_ok.mpr ⟨_, hc, (if_neg hlt).trans ?_⟩, .inr ⟨hb, hout⟩⟩
        rw [hadd]
        exact hr
  · obtain ⟨s', hs', hsame, hsize⟩ := failUninsert_eq h (congrArg slot hdents) hlive none
    exact ⟨_, bind_eq_ok.mpr ⟨_, hc, hs'⟩, .inl ⟨s', rfl, hsame, hsize, hb⟩⟩

/-- **A new semaphore**: everything or nothing, but for the `0` of an entry without memory. -/
theorem creatNew_cases (h : s.Inv) :
    ∃ r, s.creatNew b name = .ok r ∧
      ((∃ s', r = (none, none, s') ∧ Same s s' ∧ 4 * s'.sems.length ≤ maxMemory ∧
        (b.SemBlocks ∧ SemRoom b.sems s.sems ∧ ¬ NamedBlocks b.dent b.dentName name.length)) ∨
      ¬ (b.SemBlocks ∧ SemRoom b.sems s.sems ∧ ¬ NamedBlocks b.dent b.dentName name.length) ∧
        Outcome s name r) := by
  rcases semfsSemCreate_cases b name s.live with ⟨sem, live, hc, hb, hsem, hlive⟩ | ⟨hc, hb⟩
  · rcases semfsSemInsert_cases b.sems sem h.size with
      ⟨sems, semnum, hi, hroom, hfree, hslot, hlt, hsize⟩ | ⟨⟨e, hi⟩, hroom⟩
    · have hins : Inserted s { s with sems := sems, live := live } sem semnum :=
        ⟨hfree, hslot, hlt, hsize, rfl, hsem⟩
      have hcases := @creatDent_cases s { s with sems := sems, live := live } name b sem semnum
        h.vnodes hins rfl hlive
      obtain ⟨r, hr, hout⟩ := hcases
      refine ⟨r, bind_eq_ok.mpr ⟨_, hc, ?_⟩, hout.imp ?_ ?_⟩
      · simp only [hi]
        exact hr
      · rintro ⟨s', hs', hsame, hsize', hd⟩
        exact ⟨s', hs', hsame, hsize', hb, hroom, hd⟩
      · exact fun hout => ⟨fun hf => hf.2.2 hout.1, hout.2⟩
    · refine ⟨(some e, none, s), bind_eq_ok.mpr ⟨_, hc, ?_⟩,
        .inr ⟨fun hf => hroom hf.2.1, .failed e s ⟨rfl, rfl, rfl, rfl⟩ h.size⟩⟩
      simp only [hi]
      exact bind_eq_ok.mpr ⟨_, hlive, rfl⟩
  · exact ⟨_, bind_eq_ok.mpr ⟨_, hc, rfl⟩, .inr ⟨fun hf => hb hf.1,
      .failed .enomem s ⟨rfl, rfl, rfl, rfl⟩ h.size⟩⟩

end Labels

/-! ## The call -/

section Call

variable {s s' : SemfsMem} {name : List UInt8} {b : CreatBlocks} {r : Result}

theorem named_iff {d : DirentryObj} :
    DirentryObj.named name (some d) = true ↔ d.semdName = name := decide_eq_true_iff

/-- The search for the name ends at an entry of that name. -/
theorem of_find_some {l : List (Option DirentryObj)} {d : DirentryObj}
    (h : l.find? (DirentryObj.named name) = some (some d)) :
    ∃ i, slot l i = some d ∧ d.semdName = name := by
  obtain ⟨i, hi⟩ := mem_iff_slot.mp (List.mem_of_find?_eq_some h)
  exact ⟨i, hi, named_iff.mp (List.find?_some h)⟩

theorem of_find_ne {l : List (Option DirentryObj)}
    (h : ∀ d, l.find? (DirentryObj.named name) ≠ some (some d)) :
    ∀ d, some d ∈ l → d.semdName ≠ name := by
  rintro d hd hname
  obtain ⟨x, hx⟩ := Option.isSome_iff_exists.mp
    ((List.find?_isSome (p := DirentryObj.named name)).mpr ⟨some d, hd, named_iff.mpr hname⟩)
  cases x with
  | none => cases List.find?_some hx
  | some d' => exact h d' hx

/-- The semaphore of an entry is there, and has no vnode when there is none in the table. -/
theorem Inv.getvnode (h : s.Inv) {i : ℕ} {d : DirentryObj} (hd : slot s.dents i = some d)
    (x : Option FreeBlock) (ok : Bool) :
    ∃ r, s.semfsGetvnode d.semdSemnum x ok = .ok r ∧ Getvnode s d.semdSemnum r := by
  refine semfsGetvnode_cases x ok h.size fun hroot hno => ?_
  obtain ⟨sem, hsem, -⟩ := h.entries.linked i d hd
  refine ⟨sem, hsem, Bool.eq_false_of_not_eq_true fun hv => ?_⟩
  exact hno ((h.vnodes.iff _ hroot).mpr ⟨sem, hsem, hv⟩)

/-- **`semfs_creat`** does not panic; it returns `0` without a vnode when there is no memory for the entry,
and otherwise has one of the outcomes. -/
theorem semfsCreat_cases (h : s.Inv) (excl : Bool) :
    ∃ r, s.semfsCreat name excl b = .ok r ∧
      ((∃ s', r = (none, none, s') ∧ Same s s' ∧ 4 * s'.sems.length ≤ maxMemory ∧
        s.DirentryFails name b) ∨ ¬ s.DirentryFails name b ∧ Outcome s name r) := by
  have hsame : Same s s := ⟨rfl, rfl, rfl, rfl⟩
  unfold semfsCreat
  by_cases hdot : name = [46] ∨ name = [46, 46]
  · rw [if_pos hdot]
    exact ⟨_, rfl, .inr ⟨fun hf => hdot.elim hf.1 hf.2.1, .failed .eexist s hsame h.size⟩⟩
  · rw [if_neg hdot]
    split
    · next d hfind =>
      obtain ⟨i, hd, hname⟩ := of_find_some hfind
      have hnot : ¬ s.DirentryFails name b := fun hf =>
        hf.2.2.1 d (mem_iff_slot.mpr ⟨i, hd⟩) hname
      cases excl with
      | true => exact ⟨_, rfl, .inr ⟨hnot, .failed .eexist s hsame h.size⟩⟩
      | false =>
        obtain ⟨r, hr, hget⟩ := h.getvnode hd b.vnode b.vnodes
        exact ⟨r, hr, .inr ⟨hnot, .existing i d r hd hname hget⟩⟩
    · next hfind =>
      have hno := of_find_ne hfind
      have hdots := not_or.mp hdot
      obtain ⟨r, hr, hout⟩ := @creatNew_cases s name b h
      refine ⟨r, hr, hout.imp ?_ ?_⟩
      · rintro ⟨s', hs', hsame', hsize, hf⟩
        exact ⟨s', hs', hsame', hsize, hdots.1, hdots.2, hno, hf⟩
      · exact fun hout => ⟨fun hf => hout.1 hf.2.2.2, hout.2⟩

end Call

/-! ## The invariant -/

section Invariant

variable {s s' : SemfsMem} {name : List UInt8} {b : CreatBlocks} {r : Result} {n i : ℕ}

theorem Inv.of_same (h : s.Inv) (hs : Same s s') (hsize : 4 * s'.sems.length ≤ maxMemory) :
    s'.Inv := by
  refine ⟨?_, ?_, hsize⟩
  · rw [hs.dents, hs.sems]
    exact h.entries
  · rw [hs.sems, hs.vnodes]
    exact h.vnodes

/-- A semaphore is replaced by one that is linked when it was. -/
theorem EntriesOk.update {dents : ℕ → Option DirentryObj} {sems : ℕ → Option SemObj}
    {x : Option SemObj} (h : EntriesOk dents sems)
    (hx : ∀ sem, sems n = some sem → sem.linked = true → ∃ sem', x = some sem' ∧ sem'.linked = true) :
    EntriesOk dents (Function.update sems n x) := by
  refine ⟨fun i d hd => ?_, h.inj⟩
  obtain ⟨sem, hsem, hlinked⟩ := h.linked i d hd
  by_cases hn : d.semdSemnum = n
  · rw [hn, Function.update_self]
    exact hx sem (hn ▸ hsem) hlinked
  · rw [Function.update_of_ne hn]
    exact ⟨sem, hsem, hlinked⟩

/-- Only semaphore `n` gets or loses its vnode. -/
theorem VnodesOk.update {sems : ℕ → Option SemObj} {x : Option SemObj}
    {vnodes vnodes' : List SemfsVnode} (h : VnodesOk sems vnodes)
    (hother : ∀ k, k ≠ n → (k ∈ vnodes'.map SemfsVnode.semvSemnum ↔
      k ∈ vnodes.map SemfsVnode.semvSemnum))
    (hself : n ≠ semfsRootdir → (n ∈ vnodes'.map SemfsVnode.semvSemnum ↔
      ∃ sem, x = some sem ∧ sem.hasvnode = true))
    (hnodup : (vnodes'.map SemfsVnode.semvSemnum).Nodup) :
    VnodesOk (Function.update sems n x) vnodes' := by
  refine ⟨fun k hk => ?_, hnodup⟩
  by_cases hkn : k = n
  · rw [hkn, Function.update_self]
    exact hself (hkn ▸ hk)
  · rw [Function.update_of_ne hkn, hother k hkn]
    exact h.iff k hk

theorem map_modify_semnum {f : SemfsVnode → SemfsVnode} (hf : ∀ v, (f v).semvSemnum = v.semvSemnum)
    (l : List SemfsVnode) (i : ℕ) :
    (l.modify i f).map SemfsVnode.semvSemnum = l.map SemfsVnode.semvSemnum := by
  refine List.ext_getElem? fun k => ?_
  rw [List.getElem?_map, List.getElem?_map, List.getElem?_modify]
  cases l[k]? with
  | none => rfl
  | some v =>
    by_cases hk : i = k
    · simp [hk, hf]
    · simp [hk]

/-- **A new vnode at the end of the table.** -/
theorem VnodesOk.append {sems : ℕ → Option SemObj} {vnodes : List SemfsVnode} {v : SemfsVnode}
    {x : Option SemObj} (h : VnodesOk sems vnodes)
    (hno : v.semvSemnum ∉ vnodes.map SemfsVnode.semvSemnum)
    (hself : v.semvSemnum ≠ semfsRootdir → ∃ sem, x = some sem ∧ sem.hasvnode = true) :
    VnodesOk (Function.update sems v.semvSemnum x) (vnodes ++ [v]) := by
  refine h.update (fun k hk => ?_) (fun hroot => ?_) ?_
  · rw [List.map_append, List.mem_append]
    exact or_iff_left fun hk' => hk (List.mem_singleton.mp hk')
  · refine iff_of_true ?_ (hself hroot)
    rw [List.map_append, List.mem_append]
    exact .inr (List.mem_singleton.mpr rfl)
  · rw [List.map_append]
    refine List.nodup_append.mpr ⟨h.nodup, List.nodup_singleton _, fun a ha c hc => ?_⟩
    rw [List.mem_singleton.mp hc]
    rintro rfl
    exact hno ha

/-- **`semfs_getvnode`** keeps the invariant. -/
theorem Inv.getvnode_inv (h : s.Inv) (hg : Getvnode s n r)
    (hn : n ≠ semfsRootdir → ∃ sem, slot s.sems n = some sem) : r.2.2.Inv := by
  cases hg with
  | found i v hv hn' =>
    refine ⟨h.entries, ?_, h.size⟩
    have hmap := map_modify_semnum (f := SemfsVnode.incref) (fun _ => rfl) s.vnodes i
    exact ⟨fun k hk => by rw [hmap]; exact h.vnodes.iff k hk, by rw [hmap]; exact h.vnodes.nodup⟩
  | failed => exact h
  | made v sems live hno hn' hlen hsems =>
    subst hn'
    refine ⟨?_, ?_, by rw [hlen]; exact h.size⟩
    · change EntriesOk (slot s.dents) (slot sems)
      rw [hsems]
      exact h.entries.update fun sem hsem hl => ⟨sem.setHasvnode true, by rw [hsem]; rfl, hl⟩
    · change VnodesOk (slot sems) (s.vnodes ++ [v])
      rw [hsems]
      refine h.vnodes.append hno fun hroot => ?_
      obtain ⟨sem, hsem⟩ := hn hroot
      exact ⟨sem.setHasvnode true, by rw [hsem]; rfl, rfl⟩

/-- **A new semaphore** keeps the invariant. -/
theorem Inv.created (h : s.Inv) {sem : SemObj} {dent : DirentryObj} {empty : ℕ} {v : SemfsVnode}
    (hc : Created s s' name sem dent empty v) : s'.Inv := by
  have hold : ∀ i d, slot s.dents i = some d → d.semdSemnum ≠ v.semvSemnum := fun i d hd hn => by
    obtain ⟨sem', hsem', -⟩ := h.entries.linked i d hd
    rw [hn, hc.free] at hsem'
    cases hsem'
  have hnew : dent.semdSemnum = v.semvSemnum := congrArg SemfsDirentry.semdSemnum hc.dent_eq
  refine ⟨?_, ?_, hc.size⟩
  · rw [hc.dents, hc.sems]
    refine ⟨fun i d hd => ?_, fun i j d d' hi hj he => ?_⟩
    · by_cases hi : i = empty
      · rw [hi, Function.update_self] at hd
        cases hd
        rw [hnew, Function.update_self]
        exact ⟨sem, rfl, congrArg SemfsSem.linked hc.sem_eq⟩
      · rw [Function.update_of_ne hi] at hd
        rw [Function.update_of_ne (hold i d hd)]
        exact h.entries.linked i d hd
    · by_cases hie : i = empty <;> by_cases hje : j = empty
      · rw [hie, hje]
      · rw [hie, Function.update_self] at hi
        rw [Function.update_of_ne hje] at hj
        cases hi
        exact absurd (he.symm.trans hnew) (hold j d' hj)
      · rw [hje, Function.update_self] at hj
        rw [Function.update_of_ne hie] at hi
        cases hj
        exact absurd (he.trans hnew) (hold i d hi)
      · rw [Function.update_of_ne hie] at hi
        rw [Function.update_of_ne hje] at hj
        exact h.entries.inj i j d d' hi hj he
  · rw [hc.sems, hc.vnodes]
    exact h.vnodes.append (h.vnodes.not_mem hc.root hc.free) fun _ =>
      ⟨sem, rfl, congrArg SemfsSem.hasvnode hc.sem_eq⟩

/-- **`semfs_creat`** keeps the invariant. -/
theorem Inv.creat (h : s.Inv) {excl : Bool} (hr : s.semfsCreat name excl b = .ok r) :
    r.2.2.Inv := by
  obtain ⟨r', hr', hout⟩ := @semfsCreat_cases s name b h excl
  obtain rfl : r' = r := Except.ok.inj (hr'.symm.trans hr)
  rcases hout with ⟨s', rfl, hsame, hsize, -⟩ | ⟨-, hout⟩
  · exact h.of_same hsame hsize
  · cases hout with
    | failed e s' hsame hsize => exact h.of_same hsame hsize
    | existing i dent _ hdent hname hg =>
      obtain ⟨sem, hsem, -⟩ := h.entries.linked i dent hdent
      exact h.getvnode_inv hg fun _ => ⟨sem, hsem⟩
    | created s' sem dent empty v hc => exact h.created hc

/-- **A semaphore loses its entry**, and its slot when it has no vnode. -/
theorem Inv.unlinked (h : s.Inv) {d : DirentryObj} {sem : SemObj} {x : Option SemObj}
    {dents : List (Option DirentryObj)} {sems : List (Option SemObj)} {live : Finset ℕ}
    (hd : slot s.dents i = some d) (hsem : slot s.sems d.semdSemnum = some sem)
    (hdents : slot dents = Function.update (slot s.dents) i none)
    (hsems : slot sems = Function.update (slot s.sems) d.semdSemnum x)
    (hx : (∃ sem', x = some sem' ∧ sem'.hasvnode = true) ↔ sem.hasvnode = true)
    (hlen : sems.length = s.sems.length) : (⟨dents, sems, s.vnodes, live⟩ : SemfsMem).Inv := by
  have hold : ∀ j d', Function.update (slot s.dents) i none j = some d' → slot s.dents j = some d' ∧
      d'.semdSemnum ≠ d.semdSemnum := fun j d' hj => by
    by_cases hji : j = i
    · rw [hji, Function.update_self] at hj
      cases hj
    · rw [Function.update_of_ne hji] at hj
      exact ⟨hj, fun he => hji (h.entries.inj j i d' d hj hd he)⟩
  refine ⟨?_, ?_, by rw [hlen]; exact h.size⟩
  · change EntriesOk (slot dents) (slot sems)
    rw [hdents, hsems]
    refine ⟨fun j d' hj => ?_, fun j k d' d'' hj hk he =>
      h.entries.inj j k d' d'' (hold j d' hj).1 (hold k d'' hk).1 he⟩
    rw [Function.update_of_ne (hold j d' hj).2]
    exact h.entries.linked j d' (hold j d' hj).1
  · change VnodesOk (slot sems) s.vnodes
    rw [hsems]
    refine h.vnodes.update (fun _ _ => Iff.rfl) (fun hroot => ?_) h.vnodes.nodup
    rw [hx, h.vnodes.iff _ hroot, hsem]
    exact ⟨fun ⟨sem', he, hv⟩ => Option.some.inj he ▸ hv, fun hv => ⟨sem, rfl, hv⟩⟩

/-- **`semfs_remove`** keeps the invariant. -/
theorem Inv.remove (h : s.Inv) {e : Option FsErr} (hr : s.semfsRemove name = .ok (e, s')) :
    s'.Inv := by
  unfold semfsRemove at hr
  split at hr
  · cases hr
    exact h
  simp only at hr
  split at hr
  · next d hd =>
    split at hr
    · next sem hsem =>
      obtain ⟨-, hr⟩ := kassert_bind_ok.mp hr
      have hslot := slot_eq_some.mpr hsem
      have hlt := lt_of_slot (slot_eq_some.mpr hd)
      cases hv : sem.hasvnode with
      | true =>
        rw [hv, if_pos rfl] at hr
        obtain ⟨s₁, hs₁, hr⟩ := bind_eq_ok.mp hr
        cases hs₁
        obtain ⟨live, -, hr⟩ := bind_eq_ok.mp hr
        cases hr
        exact h.unlinked (slot_eq_some.mpr hd) hslot (slot_set hlt _)
          (slot_set (lt_of_slot hslot) _)
          (iff_of_true ⟨sem.unlink, rfl, hv⟩ hv) List.length_set
      | false =>
        rw [hv, if_neg Bool.false_ne_true] at hr
        obtain ⟨s₁, hs₁, hr⟩ := bind_eq_ok.mp hr
        obtain ⟨live', -, hs₁⟩ := bind_eq_ok.mp hs₁
        cases hs₁
        obtain ⟨live, -, hr⟩ := bind_eq_ok.mp hr
        cases hr
        refine h.unlinked (slot_eq_some.mpr hd) hslot (slot_set hlt _)
          (slot_set (lt_of_slot hslot) _) (iff_of_false ?_ ?_) List.length_set
        · rintro ⟨sem', hs, -⟩
          cases hs
        · exact Bool.eq_false_iff.mp hv
    · cases hr
  · cases hr
    exact h

/-- What the end of the last reference does to the semaphore of the vnode. -/
theorem clearHasvnode_cases (hsize : 4 * s.sems.length ≤ maxMemory)
    (hs : s.clearHasvnode n = .ok s') :
    ∃ x, slot s'.sems = Function.update (slot s.sems) n x ∧ s'.sems.length = s.sems.length ∧
      s'.dents = s.dents ∧ s'.vnodes = s.vnodes ∧
      (∀ sem, slot s.sems n = some sem → sem.linked = true →
        ∃ sem', x = some sem' ∧ sem'.linked = true) ∧
      ¬ ∃ sem', x = some sem' ∧ sem'.hasvnode = true := by
  have hnone : ¬ ∃ sem' : SemObj, none = some sem' ∧ sem'.hasvnode = true := by
    rintro ⟨sem', hs, -⟩
    cases hs
  unfold clearHasvnode at hs
  split at hs
  · next hroot =>
    cases hs
    have hout : slot s.sems n = none := slot_of_le (hroot ▸ Nat.le_of_lt (lt_semfsRootdir hsize))
    refine ⟨none, by rw [← hout, Function.update_eq_self], rfl, rfl, rfl, fun sem hsem => ?_, hnone⟩
    rw [hout] at hsem
    cases hsem
  split at hs
  · next sem hsem =>
    obtain ⟨-, hs⟩ := kassert_bind_ok.mp hs
    have hslot := slot_eq_some.mpr hsem
    cases hl : sem.linked with
    | true =>
      rw [hl] at hs
      cases hs
      refine ⟨_, slot_set (lt_of_slot hslot) _, List.length_set, rfl, rfl,
        fun _ _ _ => ⟨_, rfl, hl⟩, ?_⟩
      rintro ⟨sem', he, hv⟩
      cases he
      cases hv
    | false =>
      rw [hl] at hs
      obtain ⟨live, -, hs⟩ := bind_eq_ok.mp hs
      cases hs
      refine ⟨none, slot_set (lt_of_slot hslot) _, List.length_set, rfl, rfl,
        fun sem' hsem' hl' => ?_, hnone⟩
      obtain rfl : sem' = sem := Option.some.inj (hsem'.symm.trans hslot)
      rw [hl] at hl'
      cases hl'
  · cases hs

/-- **Dropping a reference** keeps the invariant. -/
theorem Inv.decref (h : s.Inv) (hs : s.vnodeDecref i = .ok s') : s'.Inv := by
  unfold vnodeDecref at hs
  split at hs
  · cases hs
  next v hv =>
  obtain ⟨-, hs⟩ := kassert_bind_ok.mp hs
  split at hs
  · cases hs
    have hmap := map_modify_semnum (f := SemfsVnode.decref) (fun _ => rfl) s.vnodes i
    exact ⟨h.entries, ⟨fun k hk => by rw [hmap]; exact h.vnodes.iff k hk,
      by rw [hmap]; exact h.vnodes.nodup⟩, h.size⟩
  · obtain ⟨s₁, hs₁, hs⟩ := bind_eq_ok.mp hs
    obtain ⟨live, -, hs⟩ := bind_eq_ok.mp hs
    cases hs
    obtain ⟨x, hsems, hlen, hdents, hvnodes, hlinked, hno⟩ :=
      clearHasvnode_cases (s := { s with vnodes := s.vnodes.eraseIdx i }) h.size hs₁
    have hget : (s.vnodes.map SemfsVnode.semvSemnum)[i]? = some v.semvSemnum := by
      rw [List.getElem?_map, hv]
      rfl
    have hiff : ∀ k, k ∈ (s.vnodes.map SemfsVnode.semvSemnum).eraseIdx i ↔
        k ∈ s.vnodes.map SemfsVnode.semvSemnum ∧ k ≠ v.semvSemnum := fun k => by
      rw [List.mem_eraseIdx_iff_getElem?]
      constructor
      · rintro ⟨j, hj, hk⟩
        refine ⟨List.mem_of_getElem? hk, ?_⟩
        rintro rfl
        exact hj ((List.getElem?_inj (List.getElem?_eq_some_iff.mp hk).1 h.vnodes.nodup).mp
          (hk.trans hget.symm))
      · rintro ⟨hk, hne⟩
        obtain ⟨j, hj⟩ := List.getElem?_of_mem hk
        refine ⟨j, ?_, hj⟩
        rintro rfl
        exact hne (Option.some.inj (hj.symm.trans hget))
    refine ⟨?_, ?_, by rw [hlen]; exact h.size⟩
    · change EntriesOk (slot s₁.dents) (slot s₁.sems)
      rw [hdents, hsems]
      exact h.entries.update hlinked
    · change VnodesOk (slot s₁.sems) s₁.vnodes
      rw [hvnodes, hsems]
      refine h.vnodes.update (fun k hk => ?_) (fun _ => iff_of_false (fun hk => ?_) hno) ?_
      · rw [← List.eraseIdx_map, hiff]
        exact and_iff_left hk
      · rw [← List.eraseIdx_map, hiff] at hk
        exact hk.2 rfl
      · rw [← List.eraseIdx_map]
        exact h.vnodes.nodup.eraseIdx i

/-- **Every call** keeps the invariant. -/
theorem Inv.step {c : SemfsCall} (h : s.Inv) (hs : s.step c = .ok s') : s'.Inv := by
  cases c with
  | creat name excl b =>
    obtain ⟨r, hr, rfl⟩ := map_eq_ok hs
    exact h.creat hr
  | lookup path x ok =>
    obtain ⟨r, hr, rfl⟩ := map_eq_ok hs
    unfold semfsLookup at hr
    split at hr
    · next d hfind =>
      obtain ⟨i, hd, -⟩ := of_find_some hfind
      obtain ⟨r', hr', hg⟩ := h.getvnode hd x ok
      obtain rfl : r' = r := Except.ok.inj (hr'.symm.trans hr)
      obtain ⟨sem, hsem, -⟩ := h.entries.linked i d hd
      exact h.getvnode_inv hg fun _ => ⟨sem, hsem⟩
    · cases hr
      exact h
  | getroot x ok =>
    obtain ⟨r, hr, rfl⟩ := map_eq_ok hs
    obtain ⟨r', hr', hg⟩ := semfsGetvnode_cases x ok h.size fun hroot => absurd rfl hroot
    obtain rfl : r' = r := Except.ok.inj (hr'.symm.trans hr)
    exact h.getvnode_inv hg fun hroot => absurd rfl hroot
  | remove name =>
    obtain ⟨⟨e, s₁⟩, hr, rfl⟩ := map_eq_ok hs
    exact h.remove hr
  | decref i => exact h.decref hs

theorem inv_empty (live : Finset ℕ) : (SemfsMem.empty live).Inv where
  entries := ⟨fun _ _ hd => (Option.some_ne_none _ hd.symm).elim,
    fun _ _ _ _ hd => (Option.some_ne_none _ hd.symm).elim⟩
  vnodes := ⟨fun _ _ => iff_of_false List.not_mem_nil fun hs =>
    (Option.some_ne_none _ hs.choose_spec.1.symm).elim, List.nodup_nil⟩
  size := Nat.zero_le _

/-- **The invariant holds after every run.** -/
theorem inv_run {calls : List SemfsCall} {live : Finset ℕ}
    (h : run SemfsMem.step (SemfsMem.empty live) calls = .ok s) : s.Inv :=
  run_inv SemfsMem.step (fun _ _ _ hs ht => hs.step ht) (inv_empty live) h

end Invariant

/-! ## All or nothing -/

section Main

variable {s : SemfsMem} {name : List UInt8} {b : CreatBlocks} {r : Result}

/-- The vnode of an entry that was there. -/
theorem Inv.allOrNothing_existing (h : s.Inv) {i : ℕ} {d : DirentryObj}
    (hd : slot s.dents i = some d) (hname : d.semdName = name) (hg : Getvnode s d.semdSemnum r) :
    AllOrNothing s name r := by
  obtain ⟨sem, hsem, hlinked⟩ := h.entries.linked i d hd
  have hroot : d.semdSemnum ≠ semfsRootdir :=
    Nat.ne_of_lt (lt_semfsRootdir (Nat.le_trans (by have := lt_of_slot hsem; omega) h.size))
  cases hg with
  | found j v hv hn =>
    have hlt := (List.getElem?_eq_some_iff.mp hv).1
    obtain ⟨sem', hsem', hvnode⟩ := (h.vnodes.iff _ hroot).mp
      (List.mem_map.mpr ⟨v, List.mem_of_getElem? hv, hn⟩)
    refine ⟨iff_of_true rfl ⟨_, rfl, i, d, sem, v.incref, hd, hname, hsem, hlinked, ?_, ?_, hn, rfl⟩,
      fun he => absurd rfl he⟩
    · rw [← Option.some.inj (hsem'.symm.trans hsem)]
      exact hvnode
    · refine List.mem_of_getElem? (i := j) ?_
      change (s.vnodes.modify j SemfsVnode.incref)[j]? = _
      rw [List.getElem?_modify_eq, hv]
      rfl
  | failed =>
    refine ⟨iff_of_false (by rintro ⟨⟩) ?_, fun _ => ⟨rfl, rfl, rfl, rfl⟩⟩
    rintro ⟨a, ha, -⟩
    cases ha
  | made v sems live hno hn hlen hsems =>
    refine ⟨iff_of_true rfl ⟨_, rfl, i, d, sem.setHasvnode true, v, hd, hname, ?_, hlinked, rfl,
      List.mem_append_right _ (List.mem_singleton.mpr rfl), hn, rfl⟩, fun he => absurd rfl he⟩
    change slot sems d.semdSemnum = _
    rw [hsems, Function.update_self, hsem]
    rfl

/-- **Every outcome** is all or nothing. -/
theorem Inv.allOrNothing (h : s.Inv) (ho : Outcome s name r) : AllOrNothing s name r := by
  cases ho with
  | failed e s' hsame =>
    refine ⟨iff_of_false (by rintro ⟨⟩) ?_, fun _ => hsame⟩
    rintro ⟨a, ha, -⟩
    cases ha
  | existing i d _ hd hname hg => exact h.allOrNothing_existing hd hname hg
  | created s' sem dent empty v hc =>
    have hnum : dent.semdSemnum = v.semvSemnum := congrArg SemfsDirentry.semdSemnum hc.dent_eq
    refine ⟨iff_of_true rfl ⟨_, rfl, empty, dent, sem, v, ?_,
      congrArg SemfsDirentry.semdName hc.dent_eq, ?_, congrArg SemfsSem.linked hc.sem_eq,
      congrArg SemfsSem.hasvnode hc.sem_eq, ?_, hnum.symm, rfl⟩, fun he => absurd rfl he⟩
    · rw [hc.dents, Function.update_self]
    · rw [hc.sems, hnum, Function.update_self]
    · rw [hc.vnodes]
      exact List.mem_append_right _ (List.mem_singleton.mpr rfl)

/-- **`semfs_creat` is all-or-nothing** in every state that the calls reach, if and only if it is not
`semfs_direntry_create` that fails. -/
theorem semfsCreat_iff {calls : List SemfsCall} {live : Finset ℕ}
    (h : run SemfsMem.step (SemfsMem.empty live) calls = .ok s) (name : List UInt8) (excl : Bool)
    (b : CreatBlocks) :
    Safe (AllOrNothing s name) (s.semfsCreat name excl b) ↔ ¬ s.DirentryFails name b := by
  obtain ⟨r, hr, hout⟩ := @semfsCreat_cases s name b (inv_run h) excl
  rw [hr]
  rcases hout with ⟨s', rfl, -, -, hf⟩ | ⟨hf, hout⟩
  · refine iff_of_false (fun hsafe => ?_) fun hno => hno hf
    obtain ⟨a, ha, -⟩ := hsafe.1.mp rfl
    cases ha
  · exact iff_of_true ((inv_run h).allOrNothing hout) hf

/-- Every `kmalloc` succeeds, but for that of the entry when `dent` says so. -/
def blocks (dent : Option FreeBlock) : CreatBlocks where
  sem := some .next
  lock := some .next
  lockName := some .next
  cv := some .next
  cvName := some .next
  sems := true
  dent := dent
  dentName := some .next
  dents := true
  vnode := some .next
  vnodes := true

/-- The first semaphore, `a`, is created. -/
theorem semfsCreat_first :
    Safe (AllOrNothing (SemfsMem.empty ∅) [97])
      ((SemfsMem.empty ∅).semfsCreat [97] true (blocks (some .next))) :=
  (@semfsCreat_iff _ [] ∅ rfl [97] true (blocks (some .next))).mpr fun hf =>
    hf.2.2.2.2.2 ⟨rfl, rfl, by decide⟩

/-- Without memory for the entry, `0` is returned for a semaphore that does not exist. -/
theorem not_allOrNothing :
    ¬ ∀ (s : SemfsMem) (calls : List SemfsCall) (live : Finset ℕ),
      run SemfsMem.step (SemfsMem.empty live) calls = .ok s →
      ∀ (name : List UInt8) (excl : Bool) (b : CreatBlocks),
        Safe (AllOrNothing s name) (s.semfsCreat name excl b) := fun h => by
  have hsafe := h (SemfsMem.empty ∅) [] ∅ rfl [97] true (blocks none)
  have heval : ((SemfsMem.empty ∅).semfsCreat [97] true (blocks none)).toOption.map
      (fun r => (r.1, r.2.1)) = some (none, none) := by decide
  obtain ⟨⟨e, vn, s'⟩, hr, he⟩ := exists_ok_of_toOption heval
  cases he
  rw [hr] at hsafe
  obtain ⟨a, ha, -⟩ := hsafe.1.mp rfl
  cases ha

end Main

end SemfsMem

end Os161
