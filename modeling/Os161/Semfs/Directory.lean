import Os161.Machine.Stop
import Os161.Sfs.Uio

set_option autoImplicit false

/-!
# The directory of the semaphores

`semfs_vnops.c` and `semfs_obj.c`: the root directory is an array of entries, in which a removed entry
leaves an empty slot. `semfs_getdirentry` takes `uio_offset` for the number of a slot, and `uiomove`
advances it by the bytes of the name.

* `semfsCreat`, `semfsRemove`, `semfsReclaim`: the operations, with the allocations that fail.
* `readdir`: the calls of `semfs_getdirentry`, each with the offset that the last one left.
* `Spaced`: the directories in which the two meanings of the offset agree.
* **`readsDirectory_iff`**: the iteration returns the linked names in these only.
-/

namespace Os161

open Buffer Transition

/-- The largest memory there can be: no `kmalloc` of more bytes succeeds. -/
def maxMemory : ℕ := 512 * 1024 * 1024

/-- `SEMFS_ROOTDIR`. -/
def semfsRootdir : ℕ := 0xffffffff

/-- `struct semfs_sem`, for the directory: `sems_linked` and `sems_hasvnode`. -/
structure SemfsSem where
  linked : Bool
  hasvnode : Bool
  deriving DecidableEq, Repr

/-- `struct semfs_direntry`. -/
structure SemfsDirentry where
  semdName : List UInt8
  semdSemnum : ℕ
  deriving DecidableEq, Repr

/-- `struct semfs`: the directory, the semaphores, and the numbers of those that have a vnode. -/
structure Semfs where
  dents : List (Option SemfsDirentry)
  sems : List (Option SemfsSem)
  vnodes : List ℕ
  deriving DecidableEq, Repr

/-- Which allocations of a `semfs_creat` succeed. -/
structure CreatAllocs where
  sem : Bool
  table : Bool
  dent : Bool
  dents : Bool
  vnode : Bool

/-- `array_add`, with the index of the new element. -/
def arrayAdd {α : Type} (ok : Bool) (l : List α) (x : α) : Option (List α × ℕ) :=
  if ok = true ∧ 4 * (l.length + 1) ≤ maxMemory then some (l ++ [x], l.length) else none

/-- `semfs_sem_insert`. -/
def semfsSemInsert (ok : Bool) (sems : List (Option SemfsSem)) (sem : SemfsSem) :
    Except FsErr (List (Option SemfsSem) × ℕ) :=
  if sems.length = semfsRootdir then .error .enospc
  else
    let i := sems.findIdx Option.isNone
    if i < sems.length then .ok (sems.set i (some sem), i)
    else
      match arrayAdd ok sems (some sem) with
      | some r => .ok r
      | none => .error .enomem

/-- An entry for the name. -/
def SemfsDirentry.named (name : List UInt8) : Option SemfsDirentry → Bool
  | some dent => dent.semdName = name
  | none => false

namespace Semfs

/-- After `semfs_create`. -/
def empty : Semfs := ⟨[], [], []⟩

/-- `semfs_getvnode` of a semaphore. -/
def semfsGetvnode (s : Semfs) (semnum : ℕ) (ok : Bool) : Except Stop (Option FsErr × Semfs) :=
  if semnum ∈ s.vnodes then .ok (none, s)
  else if ok = false then .ok (some .enomem, s)
  else
    match s.sems[semnum]? with
    | some (some sem) => do
      kassert (sem.hasvnode = false)
      return (none, { s with
        sems := s.sems.set semnum (some { sem with hasvnode := true })
        vnodes := s.vnodes ++ [semnum] })
    | _ => .error (.panic .kassert)

/-- The last part of `semfs_creat`, with the entry in slot `empty`: the vnode, or back to before. -/
def creatVnode (s : Semfs) (semnum empty : ℕ) (ok : Bool) : Except Stop (Option FsErr × Semfs) := do
  let (e, s) ← s.semfsGetvnode semnum ok
  if e.isSome then
    return (e, { s with dents := s.dents.set empty none, sems := s.sems.set semnum none })
  else
    return (none, { s with
      sems := s.sems.modify semnum (Option.map fun sem => { sem with linked := true }) })

/-- The part of `semfs_creat` that creates a semaphore. When the entry cannot be allocated it cleans up
and returns `0`. -/
def creatNew (s : Semfs) (name : List UInt8) (a : CreatAllocs) :
    Except Stop (Option FsErr × Semfs) :=
  let empty := s.dents.findIdx Option.isNone
  if a.sem = false then .ok (some .enomem, s)
  else
    match semfsSemInsert a.table s.sems ⟨false, false⟩ with
    | .error e => .ok (some e, s)
    | .ok (sems, semnum) =>
      if a.dent = false ∨ maxMemory < name.length + 1 then
        .ok (none, { s with sems := sems.set semnum none })
      else
        let dent : SemfsDirentry := ⟨name, semnum⟩
        if empty < s.dents.length then
          creatVnode { s with dents := s.dents.set empty (some dent), sems := sems } semnum empty
            a.vnode
        else
          match arrayAdd a.dents s.dents (some dent) with
          | some (dents, empty) =>
            creatVnode { s with dents := dents, sems := sems } semnum empty a.vnode
          | none => .ok (some .enomem, { s with sems := sems.set semnum none })

/-- `semfs_creat`. -/
def semfsCreat (s : Semfs) (name : List UInt8) (excl : Bool) (a : CreatAllocs) :
    Except Stop (Option FsErr × Semfs) :=
  if name = [46] ∨ name = [46, 46] then .ok (some .eexist, s)
  else
    match s.dents.find? (SemfsDirentry.named name) with
    | some (some dent) =>
      if excl then .ok (some .eexist, s) else s.semfsGetvnode dent.semdSemnum a.vnode
    | _ => s.creatNew name a

/-- `semfs_remove`. -/
def semfsRemove (s : Semfs) (name : List UInt8) : Except Stop (Option FsErr × Semfs) :=
  if name = [46] ∨ name = [46, 46] then .ok (some .einval, s)
  else
    let i := s.dents.findIdx (SemfsDirentry.named name)
    match s.dents[i]? with
    | some (some dent) =>
      match s.sems[dent.semdSemnum]? with
      | some (some sem) => do
        kassert (sem.linked = true)
        return (none, { s with
          dents := s.dents.set i none
          sems := s.sems.set dent.semdSemnum
            (if sem.hasvnode then some { sem with linked := false } else none) })
      | _ => .error (.panic .nullPointer)
    | _ => .ok (some .enoent, s)

/-- `semfs_reclaim` of the vnode of a semaphore, without other references. -/
def semfsReclaim (s : Semfs) (semnum : ℕ) : Except Stop Semfs := do
  require (semnum ∈ s.vnodes)
  match s.sems[semnum]? with
  | some (some sem) =>
    kassert (sem.hasvnode = true)
    return { s with
      sems := s.sems.set semnum (if sem.linked then some { sem with hasvnode := false } else none)
      vnodes := s.vnodes.erase semnum }
  | _ => .error (.panic .nullPointer)

end Semfs

/-- The operations that change the directory or the semaphores. -/
inductive SemfsAction
  | creat (name : List UInt8) (excl : Bool) (a : CreatAllocs)
  | remove (name : List UInt8)
  | reclaim (semnum : ℕ)

/-- A step. -/
def Semfs.step (s : Semfs) : SemfsAction → Except Stop Semfs
  | .creat name excl a => (s.semfsCreat name excl a).map Prod.snd
  | .remove name => (s.semfsRemove name).map Prod.snd
  | .reclaim semnum => s.semfsReclaim semnum

/-! ## Reading the directory -/

/-- Why the iteration ends without a result: a NULL pointer, a panic of `uiomove`, or there are more
calls to be made. -/
inductive DirStop
  | nullPointer
  | uio (p : FsPanic)
  | unfinished
  deriving DecidableEq, Repr

/-- A C string in memory. -/
def cstring (name : List UInt8) : Buffer := fun x => name.getD x 0

/-- `semfs_getdirentry`. -/
def semfsGetdirentry (dents : List (Option SemfsDirentry)) (uio : Uio) :
    Except DirStop (Option FsErr × Uio) :=
  match dents[uio.offset % wordSize]? with
  | none => .ok (none, uio)
  | some none => .error .nullPointer
  | some (some dent) =>
    match uiomove (cstring dent.semdName) 0 dent.semdName.length uio with
    | .error p => .error (.uio p)
    | .ok (e, uio, _) => .ok (e, uio)

/-- A uio for a name of up to `size` bytes. -/
def dirUio (size offset : ℕ) : Uio := ⟨[size], fun _ => 0, 0, false, size, offset, size, .read⟩

/-- The names that up to `n` calls return from `offset` on, until one transfers nothing. -/
def readdir (dents : List (Option SemfsDirentry)) (size : ℕ) :
    (n offset : ℕ) → Except DirStop (List (List UInt8))
  | 0, _ => .error .unfinished
  | n + 1, offset => do
    let (_, uio) ← semfsGetdirentry dents (dirUio size offset)
    let len := size - uio.resid
    if len = 0 then return []
    else do
      let names ← readdir dents size n uio.offset
      return (List.range len).map uio.area :: names

/-- The name is that of a linked semaphore. -/
def LinkedName (dents : List (Option SemfsDirentry)) (name : List UInt8) : Prop :=
  ∃ dent, some dent ∈ dents ∧ dent.semdName = name

/-- **The iteration from offset 0 returns the linked names**, each of them once. -/
def ReadsDirectory (dents : List (Option SemfsDirentry)) (size : ℕ) : Prop :=
  ∃ n names, readdir dents size n 0 = .ok names ∧ names.Nodup ∧
    ∀ name, name ∈ names ↔ LinkedName dents name

/-- From slot `i` on, an entry follows another one after as many slots as its name has bytes, and the
slots between them are empty. -/
structure Spaced (dents : List (Option SemfsDirentry)) (i : ℕ) : Prop where
  first : i < dents.length → ∃ dent, dents[i]? = some (some dent)
  pos : ∀ (j : ℕ) (dent : SemfsDirentry), i ≤ j → dents[j]? = some (some dent) →
    0 < dent.semdName.length
  hole : ∀ (j k : ℕ) (dent : SemfsDirentry), i ≤ j → dents[j]? = some (some dent) → j < k →
    k < j + dent.semdName.length → k < dents.length → dents[k]? = some none
  next : ∀ (j : ℕ) (dent : SemfsDirentry), i ≤ j → dents[j]? = some (some dent) →
    j + dent.semdName.length < dents.length →
    ∃ dent', dents[j + dent.semdName.length]? = some (some dent')

/-- The invariant of the directory: no name is in two entries, and it is in memory. -/
structure DentsOk (dents : List (Option SemfsDirentry)) : Prop where
  unique : ∀ (i j : ℕ) (d d' : SemfsDirentry), dents[i]? = some (some d) →
    dents[j]? = some (some d') → d.semdName = d'.semdName → i = j
  names : ∀ (i : ℕ) (d : SemfsDirentry), dents[i]? = some (some d) →
    d.semdName.length + 1 ≤ maxMemory
  size : 4 * dents.length ≤ maxMemory

section Dents

variable {s s' : Semfs} {l l' : List (Option SemfsDirentry)} {x : Option SemfsDirentry}
  {name : List UInt8} {excl : Bool} {a : CreatAllocs} {e : Option FsErr} {i : ℕ}

/-- A slot is rewritten, with an entry for a new name or with none. -/
theorem DentsOk.put (h : DentsOk l) (hx : ∀ d, x = some d → d.semdName.length + 1 ≤ maxMemory ∧ ¬ LinkedName l d.semdName)
    (hget : ∀ (j : ℕ) (d : SemfsDirentry), l'[j]? = some (some d) →
      l[j]? = some (some d) ∨ j = i ∧ x = some d)
    (hsize : 4 * l'.length ≤ maxMemory) : DentsOk l' := by
  refine ⟨fun j k d d' hj hk he => ?_, fun j d hj => ?_, hsize⟩
  · rcases hget j d hj with hj | ⟨rfl, hd⟩
    · rcases hget k d' hk with hk | ⟨rfl, hd'⟩
      · exact h.unique j k d d' hj hk he
      · exact absurd ⟨d, List.mem_of_getElem? hj, he⟩ (hx d' hd').2
    · rcases hget k d' hk with hk | ⟨rfl, hd'⟩
      · exact absurd ⟨d', List.mem_of_getElem? hk, he.symm⟩ (hx d hd).2
      · rfl
  · rcases hget j d hj with hj | ⟨rfl, hd⟩
    · exact h.names j d hj
    · exact (hx d hd).1

theorem DentsOk.set (h : DentsOk l) (i : ℕ)
    (hx : ∀ d, x = some d → d.semdName.length + 1 ≤ maxMemory ∧ ¬ LinkedName l d.semdName) : DentsOk (l.set i x) := by
  refine h.put (i := i) hx (fun j d hj => ?_) (by rw [List.length_set]; exact h.size)
  rw [List.getElem?_set] at hj
  split_ifs at hj with hij hlt
  · exact .inr ⟨hij.symm, Option.some.inj hj⟩
  · exact .inl hj

theorem DentsOk.append (h : DentsOk l)
    (hx : ∀ d, x = some d → d.semdName.length + 1 ≤ maxMemory ∧ ¬ LinkedName l d.semdName)
    (hsize : 4 * (l.length + 1) ≤ maxMemory) : DentsOk (l ++ [x]) := by
  refine h.put (i := l.length) hx (fun j d hj => ?_) (by simpa using hsize)
  rcases Nat.lt_trichotomy j l.length with hlt | rfl | hlt
  · exact .inl (by rwa [List.getElem?_append_left hlt] at hj)
  · exact .inr ⟨rfl, by simpa using hj⟩
  · rw [List.getElem?_eq_none (by simp; omega)] at hj
    cases hj

theorem dents_of_getvnode {semnum : ℕ} {ok : Bool}
    (h : s.semfsGetvnode semnum ok = .ok (e, s')) : s'.dents = s.dents := by
  unfold Semfs.semfsGetvnode at h
  split_ifs at h
  · cases h
    rfl
  · cases h
    rfl
  · split at h
    · obtain ⟨-, h⟩ := kassert_bind_ok.mp h
      cases h
      rfl
    · cases h

/-- What the last part does to the directory. -/
theorem dents_of_creatVnode {semnum empty : ℕ} {ok : Bool}
    (h : s.creatVnode semnum empty ok = .ok (e, s')) :
    s'.dents = s.dents ∨ s'.dents = s.dents.set empty none := by
  obtain ⟨⟨e', s₁⟩, hget, h⟩ := bind_eq_ok.mp h
  have hd := dents_of_getvnode hget
  cases he : e'.isSome with
  | true =>
    simp only [he, if_true] at h
    cases h
    exact .inr (by rw [← hd])
  | false =>
    simp only [he] at h
    cases h
    exact .inl hd

/-- **What a new semaphore does to the directory**: nothing, or a slot is rewritten or added. -/
theorem dents_of_creatNew (h : s.creatNew name a = .ok (e, s')) :
    s'.dents = s.dents ∨ name.length + 1 ≤ maxMemory ∧
      ∃ x, (∀ d, x = some d → d.semdName = name) ∧ ((∃ i, s'.dents = s.dents.set i x) ∨
        s'.dents = s.dents ++ [x] ∧ 4 * (s.dents.length + 1) ≤ maxMemory) := by
  have hname : ∀ {semnum : ℕ} d, some (⟨name, semnum⟩ : SemfsDirentry) = some d →
      d.semdName = name := by
    rintro semnum d hd
    rw [← Option.some.inj hd]
  have hnone : ∀ d, (none : Option SemfsDirentry) = some d → d.semdName = name := by
    rintro d ⟨⟩
  unfold Semfs.creatNew at h
  simp only at h
  split at h
  · cases h
    exact .inl rfl
  split at h
  · cases h
    exact .inl rfl
  split at h
  · cases h
    exact .inl rfl
  next hdent =>
    have hlen : name.length + 1 ≤ maxMemory := by omega
    split at h
    · refine .inr ⟨hlen, ?_⟩
      rcases dents_of_creatVnode h with hd | hd
      · exact ⟨_, hname, .inl ⟨_, hd⟩⟩
      · exact ⟨none, hnone, .inl ⟨_, hd.trans (List.set_set _)⟩⟩
    split at h
    · next dents empty hadd =>
      refine .inr ⟨hlen, ?_⟩
      unfold arrayAdd at hadd
      split_ifs at hadd with hsize
      cases hadd
      rcases dents_of_creatVnode h with hd | hd
      · exact ⟨_, hname, .inr ⟨hd, hsize.2⟩⟩
      · exact ⟨none, hnone, .inr ⟨hd.trans (by simp), hsize.2⟩⟩
    · cases h
      exact .inl rfl

/-- **What `semfs_creat` does to the directory**: nothing, or a slot is rewritten or added for a name
that was in no entry. -/
theorem dents_of_creat (h : s.semfsCreat name excl a = .ok (e, s')) :
    s'.dents = s.dents ∨ (¬ LinkedName s.dents name ∧ name.length + 1 ≤ maxMemory ∧
      ∃ x, (∀ d, x = some d → d.semdName = name) ∧ ((∃ i, s'.dents = s.dents.set i x) ∨
        s'.dents = s.dents ++ [x] ∧ 4 * (s.dents.length + 1) ≤ maxMemory)) := by
  unfold Semfs.semfsCreat at h
  split at h
  · cases h
    exact .inl rfl
  split at h
  · split at h
    · cases h
      exact .inl rfl
    · exact .inl (dents_of_getvnode h)
  · next hfind =>
    refine (dents_of_creatNew h).imp_right fun hnew => ⟨?_, hnew⟩
    rintro ⟨d, hmem, hd⟩
    obtain ⟨x, hx⟩ := Option.isSome_iff_exists.mp
      ((List.find?_isSome (p := SemfsDirentry.named name)).mpr ⟨some d, hmem, decide_eq_true hd⟩)
    cases x with
    | none => cases List.find?_some hx
    | some d' => exact hfind d' hx

/-- **Every operation** keeps the invariant of the directory. -/
theorem dentsOk_step {b : SemfsAction} (h : DentsOk s.dents) (hs : s.step b = .ok s') :
    DentsOk s'.dents := by
  cases b with
  | creat name excl a =>
    obtain ⟨⟨e, s₁⟩, hc, rfl⟩ := map_eq_ok hs
    rcases dents_of_creat hc with hd | ⟨hno, hlen, x, hx, ⟨i, hd⟩ | ⟨hd, hsize⟩⟩
    · rw [hd]
      exact h
    · rw [hd]
      exact h.set i fun d hd => by rw [hx d hd]; exact ⟨hlen, hno⟩
    · rw [hd]
      exact h.append (fun d hd => by rw [hx d hd]; exact ⟨hlen, hno⟩) hsize
  | remove name =>
    obtain ⟨⟨e, s₁⟩, hr, rfl⟩ := map_eq_ok hs
    unfold Semfs.semfsRemove at hr
    split at hr
    · cases hr
      exact h
    simp only at hr
    split at hr
    · split at hr
      · obtain ⟨-, hr⟩ := kassert_bind_ok.mp hr
        cases hr
        exact h.set _ fun d hd => by cases hd
      · cases hr
    · cases hr
      exact h
  | reclaim semnum =>
    obtain ⟨-, hs⟩ := require_bind_ok.mp hs
    split at hs
    · obtain ⟨-, hs⟩ := kassert_bind_ok.mp hs
      cases hs
      exact h
    · cases hs

theorem dentsOk_empty : DentsOk Semfs.empty.dents where
  unique i j d d' hi := by cases hi
  names i d hi := by cases hi
  size := Nat.zero_le _

theorem dentsOk_run {acts : List SemfsAction} (h : run Semfs.step Semfs.empty acts = .ok s) :
    DentsOk s.dents :=
  run_inv Semfs.step (P := fun s => DentsOk s.dents) (fun _ _ _ hs ht => dentsOk_step hs ht)
    dentsOk_empty h

end Dents

/-! ## One call -/

section Reading

variable {l : List (Option SemfsDirentry)} {d : SemfsDirentry} {size n i : ℕ}
  {names : List (List UInt8)}

/-- The bytes of a string. -/
theorem map_range_cstring (name : List UInt8) (m : ℕ) (hm : m ≤ name.length) :
    (List.range m).map (blit (fun _ => 0) 0 m (cstring name) 0) = name.take m := by
  refine List.ext_getElem (by simp [hm]) fun o ho ho' => ?_
  have hlt : o < m := by simpa using ho
  simp only [List.getElem_map, List.getElem_range, List.getElem_take]
  rw [blit_of_mem (Nat.zero_le o) (by omega)]
  simp [cstring, List.getElem?_eq_getElem (Nat.lt_of_lt_of_le hlt hm)]

/-- The transfer of a name moves as much of it as there is room. -/
theorem uiomove_dirUio (name : List UInt8) (hsize : size < wordSize) (offset : ℕ) :
    ∃ uio, uiomove (cstring name) 0 name.length (dirUio size offset) =
        .ok (none, uio, cstring name) ∧ size - uio.resid = min size name.length ∧
      uio.offset = offset + min size name.length ∧
      (List.range (min size name.length)).map uio.area = name.take size := by
  have htake : name.take (min size name.length) = name.take size := List.take_eq_take_min.symm
  unfold uiomove
  change ∃ uio, uiomoveLoop (dirUio size offset) 0 name.length (cstring name) [size] = _ ∧ _
  rw [uiomoveLoop]
  by_cases h0 : name.length = 0 ∨ size = 0
  · have hmin : min size name.length = 0 := by omega
    refine ⟨_, if_pos h0, ?_⟩
    rw [← htake, hmin]
    exact ⟨Nat.sub_self size, rfl, rfl⟩
  · have hres : wsub size (min size name.length) = size - min size name.length := by
      unfold wsub wordSize at *
      omega
    rw [if_neg (show ¬ (name.length = 0 ∨ (dirUio size offset).resid = 0) from h0)]
    simp only
    rw [if_pos (show (dirUio size offset).Accessible _ from .inl rfl), if_pos ?_]
    · refine ⟨_, rfl, ?_, rfl, ?_⟩
      · change size - wsub size (min size name.length) = _
        omega
      · rw [← htake]
        exact map_range_cstring name _ (Nat.min_le_right _ _)
    · change name.length ≤ size ∨ wsub size (min size name.length) = 0
      omega

/-- **A call** ends the iteration behind the last slot, fails at an empty slot, and otherwise returns
the name in the slot and adds its length to the offset. -/
theorem readdir_succ (hsize : size < wordSize) (hi : i < wordSize) :
    readdir l size (n + 1) i =
      match l[i]? with
      | none => .ok []
      | some none => .error .nullPointer
      | some (some d) =>
        if min size d.semdName.length = 0 then .ok []
        else (readdir l size n (i + min size d.semdName.length)).map
          (d.semdName.take size :: ·) := by
  rw [readdir]
  unfold semfsGetdirentry
  rw [show (dirUio size i).offset = i from rfl, Nat.mod_eq_of_lt hi]
  cases hl : l[i]? with
  | none => simp [dirUio, bind, Except.bind, pure, Except.pure]
  | some x =>
    cases x with
    | none => rfl
    | some d =>
      obtain ⟨uio, hmove, hres, hoff, harea⟩ := uiomove_dirUio d.semdName hsize i
      simp only [hmove, bind, Except.bind, hres, hoff, harea]
      split_ifs
      · rfl
      · cases readdir l size n (i + min size d.semdName.length) <;> rfl

/-! ## The iteration -/

theorem linkedName_iff {name : List UInt8} :
    LinkedName l name ↔ ∃ (j : ℕ) (d : SemfsDirentry), l[j]? = some (some d) ∧ d.semdName = name := by
  constructor
  · rintro ⟨d, hmem, hd⟩
    obtain ⟨j, hj⟩ := List.getElem?_of_mem hmem
    exact ⟨j, d, hj, hd⟩
  · rintro ⟨j, d, hj, hd⟩
    exact ⟨d, List.mem_of_getElem? hj, hd⟩

/-- The offset behind a name is a word. -/
theorem DentsOk.next_lt (h : DentsOk l) (hd : l[i]? = some (some d)) :
    i + min size d.semdName.length < wordSize := by
  have h₁ := h.names i d hd
  have h₂ := h.size
  have h₃ := (List.getElem?_eq_some_iff.mp hd).1
  unfold maxMemory wordSize at *
  omega

/-- What is returned are names from the offset on, as far as there is room. -/
theorem mem_of_readdir (h : DentsOk l) (hsize : size < wordSize) (hi : i < wordSize)
    (hr : readdir l size n i = .ok names) {name : List UInt8} (hname : name ∈ names) :
    name.length ≤ size ∧ ∃ (j : ℕ) (d : SemfsDirentry), i ≤ j ∧ l[j]? = some (some d) ∧
      name = d.semdName.take size := by
  induction n generalizing i names with
  | zero => cases hr
  | succ n ih =>
    rw [readdir_succ hsize hi] at hr
    split at hr
    · cases hr
      cases hname
    · cases hr
    · next d hd =>
      split_ifs at hr
      · cases hr
        cases hname
      · obtain ⟨names', hr', rfl⟩ := map_eq_ok hr
        rcases List.mem_cons.mp hname with rfl | hname
        · exact ⟨List.length_take_le _ _, i, d, le_refl i, hd, rfl⟩
        · obtain ⟨hlen, j, d', hj, hd', he⟩ := ih (h.next_lt hd) hr' hname
          exact ⟨hlen, j, d', by omega, hd', he⟩

/-- An entry, the empty slots behind it, and the rest. -/
theorem Spaced.cons (hd : l[i]? = some (some d)) (hpos : 0 < d.semdName.length)
    (hhole : ∀ k, i < k → k < i + d.semdName.length → k < l.length → l[k]? = some none)
    (h : Spaced l (i + d.semdName.length)) : Spaced l i := by
  have hrest : ∀ {j d'}, i ≤ j → l[j]? = some (some d') → j = i ∨ i + d.semdName.length ≤ j := by
    intro j d' hj hd'
    by_contra hne
    have := hhole j (by omega) (by omega) (List.getElem?_eq_some_iff.mp hd').1
    rw [hd'] at this
    cases this
  refine ⟨fun _ => ⟨d, hd⟩, fun j d' hj hd' => ?_, fun j k d' hj hd' hjk hk hkl => ?_,
    fun j d' hj hd' hlt => ?_⟩
  all_goals
    rcases hrest hj hd' with rfl | hle
    · obtain rfl : d' = d := Option.some.inj (Option.some.inj (hd'.symm.trans hd))
      first | exact hpos | exact hhole k hjk hk hkl | exact h.first hlt
    · first
        | exact h.pos j d' hle hd'
        | exact h.hole j k d' hle hd' hjk hk hkl
        | exact h.next j d' hle hd' hlt

theorem Spaced.tail (h : Spaced l i) (hd : l[i]? = some (some d)) :
    Spaced l (i + d.semdName.length) :=
  ⟨fun hlt => h.next i d (le_refl i) hd hlt, fun j d' hj => h.pos j d' (by omega),
    fun j k d' hj => h.hole j k d' (by omega), fun j d' hj => h.next j d' (by omega)⟩

/-- **An iteration that returns every name** meets the entries one after the other. -/
theorem spaced_of_readdir (h : DentsOk l) (hsize : size < wordSize) (hi : i < wordSize)
    (hr : readdir l size n i = .ok names)
    (hall : ∀ (j : ℕ) (d : SemfsDirentry), i ≤ j → l[j]? = some (some d) → d.semdName ∈ names) :
    Spaced l i := by
  induction n generalizing i names with
  | zero => cases hr
  | succ n ih =>
    have hfits : ∀ {j d}, i ≤ j → l[j]? = some (some d) → d.semdName.length ≤ size :=
      fun {j d} hj hd => (mem_of_readdir h hsize hi hr (hall j d hj hd)).1
    rw [readdir_succ hsize hi] at hr
    split at hr
    · next hnone =>
      have hout : ∀ {j d}, i ≤ j → l[j]? ≠ some (some d) := fun {j d} hj hd => by
        have := (List.getElem?_eq_some_iff.mp hd).1
        have := List.getElem?_eq_none_iff.mp hnone
        omega
      refine ⟨fun hlt => ?_, fun j d hj hd => absurd hd (hout hj),
        fun j k d hj hd => absurd hd (hout hj), fun j d hj hd => absurd hd (hout hj)⟩
      have := List.getElem?_eq_none_iff.mp hnone
      omega
    · cases hr
    · next d hd =>
      have hmin : min size d.semdName.length = d.semdName.length :=
        Nat.min_eq_right (hfits (le_refl i) hd)
      rw [hmin] at hr
      split_ifs at hr with h0
      · cases hr
        exact absurd (hall i d (le_refl i) hd) List.not_mem_nil
      · obtain ⟨names', hr', rfl⟩ := map_eq_ok hr
        have hnext : i + d.semdName.length < wordSize := hmin ▸ h.next_lt hd
        rw [List.take_of_length_le (hfits (le_refl i) hd)] at hall
        -- the names of the other slots are returned later
        have hlater : ∀ {j d'}, i < j → l[j]? = some (some d') → d'.semdName ∈ names' := by
          intro j d' hj hd'
          rcases List.mem_cons.mp (hall j d' (by omega) hd') with he | hmem
          · exact absurd (h.unique j i d' d hd' hd he) (by omega)
          · exact hmem
        refine .cons hd (by omega) (fun k hik hk hkl => ?_)
          (ih hnext hr' fun j d' hj hd' => hlater (by omega) hd')
        rw [List.getElem?_eq_getElem hkl]
        cases hx : l[k] with
        | none => rfl
        | some d' =>
          have hd' : l[k]? = some (some d') := by rw [List.getElem?_eq_getElem hkl, hx]
          obtain ⟨-, j, d'', hj, hd'', he⟩ := mem_of_readdir h hsize hnext hr' (hlater hik hd')
          rw [List.take_of_length_le (hfits (by omega) hd'')] at he
          exact absurd (h.unique k j d' d'' hd' hd'' he) (by omega)

/-- **In a spaced directory** the iteration returns the names from the offset on. -/
theorem readdir_of_spaced (h : DentsOk l) (hsize : size < wordSize) (hi : i < wordSize)
    (hs : Spaced l i) (hfits : ∀ (j : ℕ) (d : SemfsDirentry), l[j]? = some (some d) →
      d.semdName.length ≤ size) :
    ∃ n names, readdir l size n i = .ok names ∧ names.Nodup ∧ ∀ name, name ∈ names ↔
      ∃ (j : ℕ) (d : SemfsDirentry), i ≤ j ∧ l[j]? = some (some d) ∧ d.semdName = name := by
  induction hk : l.length - i using Nat.strong_induction_on generalizing i with
  | _ k ih =>
    cases hd : l[i]? with
    | none =>
      refine ⟨1, [], by rw [readdir_succ hsize hi, hd], List.nodup_nil, fun name =>
        iff_of_false List.not_mem_nil ?_⟩
      rintro ⟨j, d, hj, hjd, -⟩
      have := (List.getElem?_eq_some_iff.mp hjd).1
      have := List.getElem?_eq_none_iff.mp hd
      omega
    | some x =>
      have hlt := (List.getElem?_eq_some_iff.mp hd).1
      obtain ⟨d, hd'⟩ := hs.first hlt
      obtain rfl := Option.some.inj (hd.symm.trans hd')
      have hpos := hs.pos i d (le_refl i) hd
      have hmin : min size d.semdName.length = d.semdName.length :=
        Nat.min_eq_right (hfits i d hd)
      obtain ⟨n, names, hr, hnd, hmem⟩ := ih (l.length - (i + d.semdName.length)) (by omega)
        (hmin ▸ h.next_lt hd) (hs.tail hd) rfl
      refine ⟨n + 1, d.semdName :: names, ?_, List.nodup_cons.mpr ⟨fun hin => ?_, hnd⟩,
        fun name => ?_⟩
      · rw [readdir_succ hsize hi, hd]
        simp only [hmin, if_neg (Nat.ne_of_gt hpos), hr, List.take_of_length_le (hfits i d hd)]
        rfl
      · obtain ⟨j, d', hj, hd', he⟩ := (hmem _).mp hin
        exact absurd (h.unique j i d' d hd' hd he) (by omega)
      · rw [List.mem_cons, hmem]
        constructor
        · rintro (rfl | ⟨j, d', hj, hd', he⟩)
          · exact ⟨i, d, le_refl i, hd, rfl⟩
          · exact ⟨j, d', by omega, hd', he⟩
        · rintro ⟨j, d', hj, hd', rfl⟩
          by_cases hij : j = i
          · rw [hij, hd] at hd'
            exact .inl (by rw [Option.some.inj (Option.some.inj hd')])
          · refine .inr ⟨j, d', ?_, hd', rfl⟩
            by_contra hlt'
            have := hs.hole i j d (le_refl i) hd (by omega) (by omega)
              (List.getElem?_eq_some_iff.mp hd').1
            rw [hd'] at this
            cases this

/-- An iteration that returns the linked names. -/
theorem ReadsDirectory.spaced (h : ReadsDirectory l size) (hl : DentsOk l)
    (hsize : size < wordSize) :
    Spaced l 0 ∧ ∀ d, some d ∈ l → d.semdName.length ≤ size := by
  obtain ⟨n, names, hr, -, hmem⟩ := h
  have hword : 0 < wordSize := by decide
  refine ⟨spaced_of_readdir hl hsize hword hr fun j d _ hd =>
    (hmem _).mpr ⟨d, List.mem_of_getElem? hd, rfl⟩, fun d hd => ?_⟩
  exact (mem_of_readdir hl hsize hword hr ((hmem _).mpr ⟨d, hd, rfl⟩)).1

end Reading

section Run

variable {acts : List SemfsAction} {s : Semfs} {size : ℕ}

/-- **The iteration returns the linked names exactly** when each entry stands as many slots behind the
one before it as the name of that one has bytes, with empty slots between them, and the names fit. -/
theorem readsDirectory_iff (h : run Semfs.step Semfs.empty acts = .ok s)
    (hsize : size < wordSize) :
    ReadsDirectory s.dents size ↔
      Spaced s.dents 0 ∧ ∀ d, some d ∈ s.dents → d.semdName.length ≤ size := by
  have hok := dentsOk_run h
  refine ⟨fun hr => hr.spaced hok hsize, fun ⟨hs, hfits⟩ => ?_⟩
  obtain ⟨n, names, hr, hnd, hmem⟩ := readdir_of_spaced hok hsize (by decide) hs
    fun j d hd => hfits d (List.mem_of_getElem? hd)
  refine ⟨n, names, hr, hnd, fun name => (hmem name).trans ?_⟩
  simp [linkedName_iff]

/-- Two semaphores, one with a name of two bytes. -/
def twoNames : List SemfsAction :=
  [.creat [97, 98] true ⟨true, true, true, true, true⟩,
    .creat [99] true ⟨true, true, true, true, true⟩]

theorem readsDirectory_iff_twoNames :
    ∃ s, run Semfs.step Semfs.empty twoNames = .ok s ∧ ¬ ReadsDirectory s.dents 16 := by
  obtain ⟨s, hs, he⟩ := exists_ok_of_toOption (show (run Semfs.step Semfs.empty
    twoNames).toOption.map Semfs.dents = some [some ⟨[97, 98], 0⟩, some ⟨[99], 1⟩] by decide +kernel)
  refine ⟨s, hs, fun hr => ?_⟩
  have hsp := ((readsDirectory_iff hs (by decide)).mp hr).1
  rw [he] at hsp
  cases hsp.hole 0 1 _ (le_refl 0) rfl (by decide) (by decide) (by decide)

/-- **A name is left out, and an empty slot is dereferenced**: after `ab` the offset is 2, where there
is no slot, and after the removal of `a` slot 0 is empty. -/
theorem not_readsDirectory :
    (∃ s, run Semfs.step Semfs.empty twoNames = .ok s ∧ ¬ ReadsDirectory s.dents 16) ∧
      ∃ s, run Semfs.step Semfs.empty [.creat [97] true ⟨true, true, true, true, true⟩,
          .creat [98] true ⟨true, true, true, true, true⟩, .remove [97]] = .ok s ∧
        readdir s.dents 16 3 0 = .error .nullPointer := by
  constructor
  · obtain ⟨s, hs, he⟩ := exists_ok_of_toOption (show (run Semfs.step Semfs.empty
      twoNames).toOption.map Semfs.dents = some [some ⟨[97, 98], 0⟩, some ⟨[99], 1⟩] by
      decide +kernel)
    refine ⟨s, hs, fun hr => ?_⟩
    have hsp := (hr.spaced (dentsOk_run hs) (by decide)).1
    rw [he] at hsp
    cases hsp.hole 0 1 _ (le_refl 0) rfl (by decide) (by decide) (by decide)
  · obtain ⟨s, hs, he⟩ := exists_ok_of_toOption (show (run Semfs.step Semfs.empty
      [.creat [97] true ⟨true, true, true, true, true⟩,
        .creat [98] true ⟨true, true, true, true, true⟩, .remove [97]]).toOption.map Semfs.dents =
      some [none, some ⟨[98], 1⟩] by decide +kernel)
    exact ⟨s, hs, by rw [he]; rfl⟩

end Run

end Os161
