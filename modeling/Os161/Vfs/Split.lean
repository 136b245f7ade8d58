import Mathlib.Data.List.TakeWhile
import Os161.Vfs.Refs

set_option autoImplicit false

/-!
# The split of a path

`getdevice` character by character on the memory of the path: the scan for the first colon or slash,
the colon that is overwritten, and the loops that skip slashes. A read behind the terminator is an
error.

* `getdevicePath`: the code, up to the choice of the vnode; `PathStart.vnode`: this choice.
* `PathStart.Describes`: the kinds of paths, as they are documented.
* **`getdevice_split`**: every path is split as it is documented, and the model on lists of
  characters is this code.
-/

namespace Os161

open Transition

/-- The terminator. -/
def nul : Char := '\x00'

/-- How the scan of a path does not end: a read outside, a loop that goes on, a failed `KASSERT`. -/
inductive PathStop
  | outside
  | loop
  | assert
  deriving DecidableEq

/-- What the path is relative to. -/
inductive PathStart
  | device (devname : Str)
  | bootfs
  | curfs
  | curdir
  deriving DecidableEq

/-- `path[i]`, with the terminator behind the characters. -/
def charAt (path : Str) (i : ℕ) : Except PathStop Char :=
  match path[i]? with
  | some c => .ok c
  | none => if i = path.length then .ok nul else .error .outside

/-- The loop that locates the first colon or slash; `none` is the index `-1`. -/
def findSep (path : Str) : (fuel i : ℕ) → Except PathStop (Option ℕ × Option ℕ)
  | 0, _ => .error .loop
  | fuel + 1, i => do
    let c ← charAt path i
    if c = nul then return (none, none)
    else if c = ':' then return (none, some i)
    else if c = '/' then return (some i, none)
    else findSep path fuel (i + 1)

/-- `while (path[i+1]=='/') i++`. -/
def skipSlashes (path : Str) : (fuel i : ℕ) → Except PathStop ℕ
  | 0, _ => .error .loop
  | fuel + 1, i => do
    let c ← charAt path (i + 1)
    if c = '/' then skipSlashes path fuel (i + 1) else return i

/-- `getdevice`: what the path is relative to, and the index of the subpath. -/
def getdevicePath (path : Str) : Except PathStop (PathStart × ℕ) := do
  let (slash, colon) ← findSep path (path.length + 1) 0
  if colon = none ∧ slash ≠ some 0 then return (.curdir, 0)
  else match colon with
    | some (k + 1) =>
      let path := path.set (k + 1) nul
      let i ← skipSlashes path (path.length + 1) (k + 1)
      return (.device (path.takeWhile fun c => c ≠ nul), i + 1)
    | _ =>
      if ¬ (colon = some 0 ∨ slash = some 0) then .error .assert
      else
        let c ← charAt path 0
        if c ≠ '/' ∧ c ≠ ':' then .error .assert
        else
          let i ← skipSlashes path (path.length + 1) 0
          return (if c = '/' then .bootfs else .curfs, i + 1)

/-- No colon and no slash. -/
def SepFree (path : Str) : Prop := ∀ c ∈ path, isSep c = false

/-- **The kinds of paths**: `device:path`, `/path`, `:path`, and any other one, which is relative to
the current directory; with the subpath of each. -/
def PathStart.Describes (path : Str) : PathStart → Str → Prop
  | .device devname, sub => devname ≠ [] ∧ SepFree devname ∧
      ∃ rest, path = devname ++ ':' :: rest ∧ sub = rest.dropWhile (· == '/')
  | .bootfs, sub => ∃ rest, path = '/' :: rest ∧ sub = rest.dropWhile (· == '/')
  | .curfs, sub => ∃ rest, path = ':' :: rest ∧ sub = rest.dropWhile (· == '/')
  | .curdir, sub => (SepFree path ∨ ∃ name rest, name ≠ [] ∧ SepFree name ∧
      path = name ++ '/' :: rest) ∧ sub = path

section Scan

variable {path p q name : Str} {fuel i : ℕ} {c : Char}

theorem charAt_append : charAt (p ++ c :: q) p.length = .ok c := by
  unfold charAt
  simp

theorem charAt_length : charAt path path.length = .ok nul := by
  unfold charAt
  simp

/-- A character that ends no device name. -/
theorem ne_of_isSep (h : isSep c = false) : c ≠ ':' ∧ c ≠ '/' := by
  unfold isSep at h
  simpa using h

/-- **The scan** goes over a part without separators. -/
theorem findSep_append (p q : Str) (fuel : ℕ) (hname : SepFree name) (hnul : nul ∉ name) :
    findSep (p ++ name ++ q) (name.length + fuel) p.length =
      findSep (p ++ name ++ q) fuel (p.length + name.length) := by
  induction name generalizing p with
  | nil => simp
  | cons c name ih =>
    obtain ⟨hcolon, hslash⟩ := ne_of_isSep (hname c List.mem_cons_self)
    have hc : c ≠ nul := fun e => hnul (e ▸ List.mem_cons_self)
    have hassoc : p ++ c :: name ++ q = (p ++ [c]) ++ name ++ q := by simp
    have hread : charAt (p ++ c :: name ++ q) p.length = .ok c := by
      rw [List.append_assoc, List.cons_append]
      exact charAt_append
    rw [List.length_cons, show name.length + 1 + fuel = name.length + fuel + 1 by omega, findSep, hread]
    change (if c = nul then _ else _) = _
    rw [if_neg hc, if_neg hcolon, if_neg hslash, hassoc]
    have := ih (p ++ [c]) (fun d hd => hname d (List.mem_cons_of_mem _ hd))
      fun h => hnul (List.mem_cons_of_mem _ h)
    rw [List.length_append, List.length_singleton] at this
    rw [this, show p.length + 1 + name.length = p.length + (name.length + 1) by omega]

/-- **The skipped slashes.** -/
theorem skipSlashes_append (p q : Str) (hi : i + 1 = p.length) (hfuel : q.length < fuel) :
    ∃ j, skipSlashes (p ++ q) fuel i = .ok j ∧
      (p ++ q).drop (j + 1) = q.dropWhile (· == '/') ∧ i ≤ j ∧ j + 1 ≤ (p ++ q).length := by
  induction q generalizing p i fuel with
  | nil =>
    obtain ⟨fuel, rfl⟩ := Nat.exists_eq_add_one_of_ne_zero (Nat.ne_zero_of_lt hfuel)
    refine ⟨i, ?_, by simp [hi], Nat.le_refl _, by simp [hi]⟩
    have hread : charAt (p ++ []) (i + 1) = .ok nul := by
      rw [List.append_nil, hi]
      exact charAt_length
    rw [skipSlashes, hread]
    rfl
  | cons c q ih =>
    obtain ⟨fuel, rfl⟩ := Nat.exists_eq_add_one_of_ne_zero (Nat.ne_zero_of_lt hfuel)
    have hread : charAt (p ++ c :: q) (i + 1) = .ok c := by
      rw [hi]
      exact charAt_append
    rw [skipSlashes, hread]
    change ∃ j, (if c = '/' then _ else _) = _ ∧ _
    by_cases hc : c = '/'
    · subst hc
      have hassoc : p ++ '/' :: q = (p ++ ['/']) ++ q := by simp
      rw [if_pos rfl, hassoc]
      obtain ⟨j, hj, hdrop, hle, hlen⟩ := ih (p ++ ['/'])
        (show i + 1 + 1 = _ by simp [hi]) (Nat.lt_of_succ_lt_succ hfuel)
      exact ⟨j, hj, hdrop, by omega, hlen⟩
    · rw [if_neg hc]
      refine ⟨i, rfl, ?_, Nat.le_refl _, ?_⟩
      · rw [hi, List.drop_left, List.dropWhile_cons_of_neg (by simpa using hc)]
      · rw [hi, List.length_append]
        omega

/-- Where the scan ends: at the terminator, or at a separator. -/
theorem findSep_eq (name : Str) (hname : SepFree name) (hnul : nul ∉ name) :
    findSep name (name.length + 1) 0 = .ok (none, none) ∧
      ∀ c q, isSep c = true → findSep (name ++ c :: q) ((name ++ c :: q).length + 1) 0 =
        .ok (if c = ':' then (none, some name.length) else (some name.length, none)) := by
  constructor
  · have h := findSep_append [] [] 1 hname hnul
    rw [List.nil_append, List.append_nil, List.length_nil, Nat.zero_add] at h
    rw [h, findSep, charAt_length]
    rfl
  · intro c q hc
    have h := findSep_append [] (c :: q) (q.length + 1 + 1) hname hnul
    rw [List.nil_append, List.length_nil, Nat.zero_add] at h
    have hfuel : (name ++ c :: q).length + 1 = name.length + (q.length + 1 + 1) := by
      rw [List.length_append, List.length_cons]
      omega
    have hsep : c = ':' ∨ c = '/' := by
      unfold isSep at hc
      simpa using hc
    rw [hfuel, h, findSep, charAt_append]
    rcases hsep with rfl | rfl <;> rfl

/-- Every path is without separators or has a first one. -/
theorem sepFree_or (path : Str) :
    SepFree path ∨ ∃ name c q, path = name ++ c :: q ∧ SepFree name ∧ isSep c = true := by
  induction path with
  | nil => exact .inl nofun
  | cons d path ih =>
    by_cases hd : isSep d = true
    · exact .inr ⟨[], d, path, rfl, nofun, hd⟩
    have hcons : ∀ {l : Str}, SepFree l → SepFree (d :: l) := by
      intro l hl c hc
      rcases List.mem_cons.mp hc with rfl | hc
      · exact Bool.eq_false_of_not_eq_true hd
      · exact hl c hc
    rcases ih with hfree | ⟨name, c, q, rfl, hname, hc⟩
    · exact .inl (hcons hfree)
    · exact .inr ⟨d :: name, c, q, rfl, hcons hname, hc⟩

end Scan

section Kinds

variable {path name rest : Str} {i : ℕ}

/-- **What the code returns**: the kind of the path, and the index of the subpath. -/
structure Splits (path : Str) (start : PathStart) (i : ℕ) : Prop where
  eq : getdevicePath path = .ok (start, i)
  le : i ≤ path.length
  describes : start.Describes path (path.drop i)

/-- A path from the current directory. -/
theorem splits_curdir {slash : Option ℕ}
    (hscan : findSep path (path.length + 1) 0 = .ok (slash, none)) (hslash : slash ≠ some 0)
    (h : SepFree path ∨ ∃ name rest, name ≠ [] ∧ SepFree name ∧ path = name ++ '/' :: rest) :
    Splits path .curdir 0 := by
  refine ⟨?_, Nat.zero_le _, h, rfl⟩
  rw [getdevicePath, hscan]
  exact if_pos ⟨rfl, hslash⟩

/-- `device:path`. -/
theorem splits_device (rest : Str) (hne : name ≠ []) (hname : SepFree name) (hnul : nul ∉ name) :
    ∃ i, Splits (name ++ ':' :: rest) (.device name) i := by
  obtain ⟨k, hk⟩ := Nat.exists_eq_add_one_of_ne_zero (List.length_pos_iff.mpr hne).ne'
  have hscan := (findSep_eq name hname hnul).2 ':' rest rfl
  have hset : (name ++ ':' :: rest).set (k + 1) nul = (name ++ [nul]) ++ rest := by
    rw [← hk, List.set_append_right _ _ (Nat.le_refl _), Nat.sub_self, List.append_assoc]
    rfl
  have hlen : ((name ++ ':' :: rest).set (k + 1) nul).length = (name ++ ':' :: rest).length :=
    List.length_set
  have hfuel : rest.length < ((name ++ ':' :: rest).set (k + 1) nul).length + 1 := by
    rw [hlen, List.length_append, List.length_cons]
    omega
  obtain ⟨i, hi, hdrop, hle, hend⟩ :=
    skipSlashes_append (name ++ [nul]) rest (show k + 1 + 1 = _ by simp [hk]) hfuel
  rw [← hset] at hi hdrop hend
  refine ⟨i + 1, ?_, by rwa [hlen] at hend, hne, hname, rest, rfl, ?_⟩
  · have hname' : ((name ++ ':' :: rest).set (k + 1) nul).takeWhile (fun c => c ≠ nul) = name := by
      rw [hset, List.append_assoc, List.takeWhile_append_of_pos]
      · simp
      · intro c hc
        exact decide_eq_true fun e => hnul (e ▸ hc)
    rw [getdevicePath, hscan, hk]
    change (skipSlashes ((name ++ ':' :: rest).set (k + 1) nul) _ (k + 1) >>= _) = _
    rw [hi]
    change Except.ok (PathStart.device _, _) = _
    rw [hname']
  · rw [← hdrop, List.drop_set_of_lt (by omega)]

/-- `/path` and `:path`. -/
theorem splits_leading (rest : Str) {c : Char} (hc : isSep c = true) :
    ∃ i, Splits (c :: rest) (if c = '/' then .bootfs else .curfs) i := by
  have hscan := (findSep_eq [] nofun nofun).2 c rest hc
  rw [List.nil_append, List.length_nil] at hscan
  have hfuel : rest.length < (c :: rest).length + 1 := by
    rw [List.length_cons]
    omega
  obtain ⟨i, hi, hdrop, hle, hend⟩ := skipSlashes_append [c] rest (show 0 + 1 = _ from rfl) hfuel
  have hread : charAt (c :: rest) 0 = .ok c := charAt_append (p := [])
  have hsep : c = ':' ∨ c = '/' := by
    unfold isSep at hc
    simpa using hc
  refine ⟨i + 1, ?_, hend, ?_⟩
  · rcases hsep with rfl | rfl
    · have hscan : findSep (':' :: rest) _ 0 = .ok (none, some 0) := hscan
      refine bind_eq_ok.mpr ⟨_, hscan, ?_⟩
      exact bind_eq_ok.mpr ⟨_, hread, bind_eq_ok.mpr ⟨i, hi, rfl⟩⟩
    · have hscan : findSep ('/' :: rest) _ 0 = .ok (some 0, none) := hscan
      refine bind_eq_ok.mpr ⟨_, hscan, ?_⟩
      exact bind_eq_ok.mpr ⟨_, hread, bind_eq_ok.mpr ⟨i, hi, rfl⟩⟩
  · rcases hsep with rfl | rfl
    · exact ⟨rest, rfl, hdrop⟩
    · exact ⟨rest, rfl, hdrop⟩

/-- **Every path** is split as it is documented. -/
theorem exists_splits (h : nul ∉ path) : ∃ start i, Splits path start i := by
  rcases sepFree_or path with hfree | ⟨name, c, rest, rfl, hname, hc⟩
  · exact ⟨.curdir, 0, splits_curdir (findSep_eq path hfree h).1 nofun (.inl hfree)⟩
  · have hnul : nul ∉ name := fun hmem => h (List.mem_append_left _ hmem)
    have hscan := (findSep_eq name hname hnul).2 c rest hc
    have hsep : c = ':' ∨ c = '/' := by
      unfold isSep at hc
      simpa using hc
    by_cases hne : name = []
    · subst hne
      obtain ⟨i, hi⟩ := splits_leading rest hc
      exact ⟨_, i, hi⟩
    rcases hsep with rfl | rfl
    · obtain ⟨i, hi⟩ := splits_device rest hne hname hnul
      exact ⟨_, i, hi⟩
    · refine ⟨.curdir, 0, splits_curdir hscan ?_ (.inr ⟨name, rest, hne, hname, rfl⟩)⟩
      intro e
      exact hne (List.length_eq_zero_iff.mp (Option.some.inj e))

/-- A subpath that is not relative has no slash in front. -/
theorem PathStart.Describes.head {start : PathStart} {sub : Str} (h : start.Describes path sub)
    (hne : start ≠ .curdir) : sub.head? ≠ some '/' := by
  have hdrop : ∀ rest : Str, (rest.dropWhile (· == '/')).head? ≠ some '/' := by
    intro rest e
    have := List.head?_dropWhile_not (· == '/') rest
    rw [e] at this
    simp at this
  cases start with
  | device devname =>
    obtain ⟨-, -, rest, -, rfl⟩ := h
    exact hdrop rest
  | bootfs | curfs =>
    obtain ⟨rest, -, rfl⟩ := h
    exact hdrop rest
  | curdir => exact absurd rfl hne

end Kinds

/-! ## The vnode -/

section Vnode

variable {σ : Type} (ops : FsOps σ) {path sub : Str} {start : PathStart}

/-- The vnode to start from: the root of the device or of a file system, or the current directory. -/
def PathStart.vnode : PathStart → VfsM σ (Except VfsErr VnodeId)
  | .device devname => vfsGetrootRef ops devname
  | .bootfs => do
    match (← get).bootfs with
    | none => return .error .enoent
    | some startvn =>
      vnodeIncref startvn
      return .ok startvn
  | .curfs => do
    match ← vfsGetcurdir with
    | .error e => return .error e
    | .ok vn =>
      match ops.vnFs vn with
      | none => fun _ => .error (.panic .kassert)
      | some f =>
        let result ← vopRef id (ops.getroot f)
        vnodeDecref ops vn
        return result
  | .curdir => vfsGetcurdir

/-- `getdevice` on lists of characters, by the kind of the path. -/
theorem getdevice_of_describes (h : start.Describes path sub) :
    getdevice ops path = do
      let result ← start.vnode ops
      return result.map fun startvn => (sub, startvn) := by
  have hspan : ∀ (name : Str) {c : Char} {rest : Str}, SepFree name → isSep c = true →
      (name ++ c :: rest).span (fun c => !isSep c) = (name, c :: rest) := by
    intro name c rest hname hc
    rw [List.span_eq_takeWhile_dropWhile, List.takeWhile_append_of_pos, List.dropWhile_append_of_pos]
    · simp [hc]
    · exact fun d hd => by simp [hname d hd]
    · exact fun d hd => by simp [hname d hd]
  cases start with
  | device devname =>
    obtain ⟨hne, hname, rest, rfl, rfl⟩ := h
    obtain ⟨c, devname, rfl⟩ := List.exists_cons_of_ne_nil hne
    unfold getdevice
    rw [hspan _ hname rfl]
    rfl
  | bootfs =>
    obtain ⟨rest, rfl, rfl⟩ := h
    unfold getdevice
    rw [show ('/' :: rest).span (fun c => !isSep c) = ([], '/' :: rest) from
      hspan [] nofun rfl]
    simp only [PathStart.vnode, bind_assoc]
    refine bind_congr fun s => ?_
    cases s.bootfs <;> simp [Except.map]
  | curfs =>
    obtain ⟨rest, rfl, rfl⟩ := h
    unfold getdevice
    rw [show (':' :: rest).span (fun c => !isSep c) = ([], ':' :: rest) from
      hspan [] nofun rfl]
    simp only [PathStart.vnode, bind_assoc]
    refine bind_congr fun r => ?_
    cases r with
    | error e => simp [Except.map]
    | ok vn =>
      cases hfs : ops.vnFs vn with
      | none =>
        simp only [hfs]
        rfl
      | some f => simp [hfs]
  | curdir =>
    obtain ⟨h, rfl⟩ := h
    unfold getdevice
    rcases h with hfree | ⟨name, rest, hne, hname, rfl⟩
    · have hall : sub.span (fun c => !isSep c) = (sub, []) := by
        rw [List.span_eq_takeWhile_dropWhile, List.takeWhile_eq_self_iff.mpr,
          List.dropWhile_eq_nil_iff.mpr]
        · exact fun c hc => by simp [hfree c hc]
        · exact fun c hc => by simp [hfree c hc]
      rw [hall]
      cases sub <;> rfl
    · rw [hspan _ hname rfl]
      obtain ⟨c, name, rfl⟩ := List.exists_cons_of_ne_nil hne
      rfl

/-- **Paths are split as it is documented**, without a read behind the terminator: the subpath is a
suffix of the path, and unless the path is relative no slash is in front of it. -/
theorem getdevice_split (h : nul ∉ path) :
    ∃ start i, getdevicePath path = .ok (start, i) ∧ i ≤ path.length ∧
      start.Describes path (path.drop i) ∧
      (start ≠ .curdir → (path.drop i).head? ≠ some '/') ∧
      getdevice ops path = do
        let result ← start.vnode ops
        return result.map fun startvn => (path.drop i, startvn) := by
  obtain ⟨start, i, hsplit⟩ := exists_splits h
  exact ⟨start, i, hsplit.eq, hsplit.le, hsplit.describes, hsplit.describes.head,
    getdevice_of_describes ops hsplit.describes⟩

/-- The path `e://a` of a device. -/
theorem getdevice_split_device :
    ∃ start i, getdevicePath ['e', ':', '/', '/', 'a'] = .ok (start, i) ∧ i ≤ 5 ∧
      start.Describes ['e', ':', '/', '/', 'a'] (['e', ':', '/', '/', 'a'].drop i) ∧
      (start ≠ .curdir → (['e', ':', '/', '/', 'a'].drop i).head? ≠ some '/') ∧
      getdevice (smallVolume true) ['e', ':', '/', '/', 'a'] = do
        let result ← start.vnode (smallVolume true)
        return result.map fun startvn => (['e', ':', '/', '/', 'a'].drop i, startvn) :=
  getdevice_split _ (by decide)

example : getdevicePath ['e', ':', '/', '/', 'a'] = .ok (.device ['e'], 4) := by decide

end Vnode

end Os161
