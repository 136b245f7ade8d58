import Os161.Machine.Stop
import Os161.Vm.Addrspace

set_option autoImplicit false

/-!
# The blocks of an address space

`addrspace.c`, `segment.c` and `pt.c` on the level of pointers: a region is built out of blocks that
`kmalloc` returns, one after the other, and linked into the two lists of the address space. A store
through `NULL` ends the kernel.

* `AsHeap`: the blocks; `AsHeap.sgmCreate`, `AsHeap.ptCreate`, `AsHeap.asDefineRegion`,
  `AsHeap.asDefineStack`: the code.
* `AsHeap.findSegment`, `AsHeap.walk`: the two searches of `vm_fault`; `AsHeap.ptUpdate`.
* **`not_failsCleanly`**: a `kmalloc` that fails is never reported.
-/

namespace Os161

/-- `pt_entry`. -/
structure PteCell where
  page : ℕ
  frame : ℕ
  inMem : Bool
  inSwap : Bool
  next : ℕ
  deriving DecidableEq, Repr

/-- `segment_entry`. -/
structure SegCell where
  firstAddr : ℕ
  npages : ℕ
  size : ℕ
  offset : ℤ
  permission : ℕ
  firstPtEntry : ℕ
  next : ℕ
  deriving DecidableEq, Repr

/-- `permissions`. -/
structure PermCell where
  read : ℕ
  write : ℕ
  exec : ℕ
  deriving DecidableEq, Repr

/-- An address space and the blocks it can reach: the two heads, the contents of the blocks, the
addresses of those that are allocated, and the number of calls of `kmalloc` so far. -/
structure AsHeap where
  pt : ℕ
  segments : ℕ
  pte : ℕ → PteCell
  seg : ℕ → SegCell
  perm : ℕ → PermCell
  live : List ℕ
  calls : ℕ

/-- What `as_define_region` and `as_define_stack` return. -/
inductive DefineResult
  | done
  | enomem
  deriving DecidableEq, Repr

/-- A piece of the code. -/
abbrev AsM (α : Type) : Type := StateT AsHeap (Except Stop) α

namespace AsHeap

/-- A store to a `pt_entry`. -/
def storePte (p : ℕ) (f : PteCell → PteCell) : AsM Unit := fun h =>
  if p = 0 then .error (.panic .nullPointer)
  else .ok ((), { h with pte := Function.update h.pte p (f (h.pte p)) })

/-- A store to a `segment_entry`. -/
def storeSeg (p : ℕ) (f : SegCell → SegCell) : AsM Unit := fun h =>
  if p = 0 then .error (.panic .nullPointer)
  else .ok ((), { h with seg := Function.update h.seg p (f (h.seg p)) })

/-- A store to a `permissions`. -/
def storePerm (p : ℕ) (c : PermCell) : AsM Unit := fun h =>
  if p = 0 then .error (.panic .nullPointer)
  else .ok ((), { h with perm := Function.update h.perm p c })

/-- `as->segments = p`. -/
def setSegments (p : ℕ) : AsM Unit := fun h => .ok ((), { h with segments := p })

/-- `as->pt = p`. -/
def setPt (p : ℕ) : AsM Unit := fun h => .ok ((), { h with pt := p })

section Code

variable (answer : ℕ → ℕ)

/-- `kmalloc`: what the call returns, `0` for `NULL`. A block that is in use is not returned. -/
def kmalloc : AsM ℕ := fun h =>
  let p := answer h.calls
  if p = 0 then .ok (0, { h with calls := h.calls + 1 })
  else if p ∈ h.live then .error .blocked
  else .ok (p, { h with calls := h.calls + 1, live := p :: h.live })

/-- `sgm_create`. -/
def sgmCreate (vaddr : ℕ) (offset : ℤ) (sz segsz r w x next : ℕ) : AsM ℕ := do
  let sgm ← kmalloc answer
  storeSeg sgm fun c =>
    { c with firstAddr := vaddr, npages := sz, size := segsz, offset := offset }
  let permission ← kmalloc answer
  storeSeg sgm fun c => { c with permission := permission }
  storePerm permission ⟨r, w, x⟩
  storeSeg sgm fun c => { c with firstPtEntry := 0, next := next }
  return sgm

/-- `pt_create`. -/
def ptCreate (vaddr : ℕ) : AsM ℕ := do
  let pte ← kmalloc answer
  storePte pte fun _ => ⟨vaddr, 0, false, false, 0⟩
  return pte

/-- The loop that creates the entries of the pages `page i`, for `n` pages from `i` on. `ends` is the
pair of `page_head` and `page_tail`, undefined before the first iteration; the result is `none` for
the return of `ENOMEM`. -/
def createPages (page : ℕ → ℕ) : (n i : ℕ) → Option (ℕ × ℕ) → AsM (Option (Option (ℕ × ℕ)))
  | 0, _, ends => return some ends
  | n + 1, i, ends => do
    let p ← ptCreate answer (page i)
    if p = 0 then return none
    else match ends with
    | none => createPages page n (i + 1) (some (p, p))
    | some (head, tail) => do
      storePte tail fun c => { c with next := p }
      createPages page n (i + 1) (some (head, p))

/-- What `as_define_region` and `as_define_stack` have in common: the segment, the chain of its
pages, and the chain in front of the page table. -/
def define (vaddr : ℕ) (offset : ℤ) (npages segsz r w x : ℕ) (page : ℕ → ℕ) :
    AsM DefineResult := do
  let segment ← sgmCreate answer vaddr offset npages segsz r w x (← get).segments
  if segment = 0 then return .enomem
  else do
    setSegments segment
    match ← createPages answer page npages 0 none with
    | none => return .enomem
    -- Without any page `page_head` is read before it is set.
    | some none => fun _ => .error .blocked
    | some (some (head, tail)) => do
      storeSeg segment fun c => { c with firstPtEntry := head }
      let pt := (← get).pt
      storePte tail fun c => { c with next := pt }
      setPt head
      return .done

/-- `as_define_region`. -/
def asDefineRegion (vaddr offset sz readable writeable executable : ℕ) : AsM DefineResult :=
  define answer (pageFrame vaddr) offset (regionPages vaddr sz) sz readable writeable executable
    fun i => wadd (pageFrame vaddr) (i * pageSize)

/-- `as_define_stack`: 18 pages below `USERSTACK`, listed downwards. -/
def asDefineStack : AsM DefineResult :=
  define answer (userStack - stackPages * pageSize) (-1) stackPages 0 4 2 0
    fun i => userStack - (i + 1) * pageSize

end Code

/-! ## The searches -/

/-- The segment search of `vm_fault`, over at most `n` segments from `s` on. -/
def findSegment (h : AsHeap) (fa : ℕ) : (n s : ℕ) → Except Stop (Option ℕ)
  | 0, _ => .error .blocked
  | n + 1, s =>
    if s = 0 then .ok none
    else if (h.seg s).firstAddr ≤ fa ∧
        fa < wadd (h.seg s).firstAddr ((h.seg s).npages * pageSize) then .ok (some s)
    else h.findSegment fa n (h.seg s).next

/-- The page search of `vm_fault`: `n` entries from `p` on. -/
def walk (h : AsHeap) (fa : ℕ) : (n p : ℕ) → Except Stop (Option ℕ)
  | 0, _ => .ok none
  | n + 1, p =>
    if p = 0 then .error (.panic .nullPointer)
    else if (h.pte p).page = fa then .ok (some p)
    else h.walk fa n (h.pte p).next

/-- The entry that `vm_fault` selects for the page `fa`. -/
def faultEntry (h : AsHeap) (fuel fa : ℕ) : Except Stop (Option ℕ) := do
  match ← h.findSegment fa fuel h.segments with
  | none => return none
  | some s => h.walk fa (h.seg s).npages (h.seg s).firstPtEntry

/-- `pt_update`, over at most `n` entries from `p` on. -/
def ptUpdate (vaddr : ℕ) : (n p : ℕ) → AsHeap → Except Stop AsHeap
  | 0, _, _ => .error .blocked
  | n + 1, p, h =>
    if p = 0 then .ok h
    else if (h.pte p).page = vaddr then
      .ok { h with
        pte := Function.update h.pte p
          { h.pte p with inMem := false, inSwap := true, frame := 0 } }
    else ptUpdate vaddr n (h.pte p).next h

end AsHeap

/-! ## Without memory -/

section NoMemory

open AsHeap Transition

variable {answer : ℕ → ℕ} {h h' : AsHeap} {α β : Type}

/-- The result of a bind is a result of both parts. -/
theorem AsM.bind_eq_ok {m : AsM α} {f : α → AsM β} {r : β × AsHeap} :
    (m >>= f) h = .ok r ↔ ∃ a h₁, m h = .ok (a, h₁) ∧ f a h₁ = .ok r := by
  change (m h >>= fun x => f x.1 x.2) = .ok r ↔ _
  rw [Transition.bind_eq_ok]
  exact Prod.exists

/-- A call of `kmalloc` returns the next answer. -/
theorem kmalloc_ok {p : ℕ} (hk : AsHeap.kmalloc answer h = .ok (p, h')) :
    p = answer h.calls ∧ h' = { h with
      calls := h.calls + 1, live := if p = 0 then h.live else p :: h.live } ∧
      (p ≠ 0 → p ∉ h.live) := by
  unfold AsHeap.kmalloc at hk
  simp only at hk
  split_ifs at hk with h0 hl
  · cases hk
    exact ⟨h0.symm, rfl, fun hne => absurd rfl hne⟩
  · cases hk
    exact ⟨rfl, by rw [if_neg h0], fun _ => hl⟩

theorem storePte_ok {p : ℕ} {f : PteCell → PteCell} {u : Unit}
    (hs : storePte p f h = .ok (u, h')) :
    p ≠ 0 ∧ h' = { h with pte := Function.update h.pte p (f (h.pte p)) } := by
  unfold storePte at hs
  split_ifs at hs with h0
  cases hs
  exact ⟨h0, rfl⟩

theorem storeSeg_ok {p : ℕ} {f : SegCell → SegCell} {u : Unit}
    (hs : storeSeg p f h = .ok (u, h')) :
    p ≠ 0 ∧ h' = { h with seg := Function.update h.seg p (f (h.seg p)) } := by
  unfold storeSeg at hs
  split_ifs at hs with h0
  cases hs
  exact ⟨h0, rfl⟩

theorem storePerm_ok {p : ℕ} {c : PermCell} {u : Unit} (hs : storePerm p c h = .ok (u, h')) :
    p ≠ 0 ∧ h' = { h with perm := Function.update h.perm p c } := by
  unfold storePerm at hs
  split_ifs at hs with h0
  cases hs
  exact ⟨h0, rfl⟩

/-- **`sgm_create`** returns a segment only if both its calls of `kmalloc` return a block. -/
theorem sgmCreate_ok {vaddr sz segsz r w x next sgm : ℕ} {offset : ℤ}
    (hs : sgmCreate answer vaddr offset sz segsz r w x next h = .ok (sgm, h')) :
    ∃ permission, sgm = answer h.calls ∧ permission = answer (h.calls + 1) ∧ sgm ≠ 0 ∧
      permission ≠ 0 ∧ sgm ∉ h.live ∧ permission ∉ h.live ∧ h' = { h with
        seg := Function.update h.seg sgm ⟨vaddr, sz, segsz, offset, permission, 0, next⟩
        perm := Function.update h.perm permission ⟨r, w, x⟩
        live := permission :: sgm :: h.live
        calls := h.calls + 2 } := by
  unfold sgmCreate at hs
  obtain ⟨sgm', h₁, h1, hs⟩ := AsM.bind_eq_ok.mp hs
  obtain ⟨_, h₂, h2, hs⟩ := AsM.bind_eq_ok.mp hs
  obtain ⟨permission, h₃, h3, hs⟩ := AsM.bind_eq_ok.mp hs
  obtain ⟨_, h₄, h4, hs⟩ := AsM.bind_eq_ok.mp hs
  obtain ⟨_, h₅, h5, hs⟩ := AsM.bind_eq_ok.mp hs
  obtain ⟨_, h₆, h6, hs⟩ := AsM.bind_eq_ok.mp hs
  cases hs
  obtain ⟨rfl, rfl, hl1⟩ := kmalloc_ok h1
  obtain ⟨hn1, rfl⟩ := storeSeg_ok h2
  obtain ⟨rfl, rfl, hl2⟩ := kmalloc_ok h3
  obtain ⟨-, rfl⟩ := storeSeg_ok h4
  obtain ⟨hn2, rfl⟩ := storePerm_ok h5
  obtain ⟨-, rfl⟩ := storeSeg_ok h6
  refine ⟨answer (h.calls + 1), rfl, rfl, hn1, hn2, hl1 hn1, fun hm => hl2 hn2 ?_, ?_⟩
  · rw [if_neg hn1]
    exact List.mem_cons_of_mem _ hm
  · simp [hn1, hn2, Function.update_idem]

/-- **`pt_create`** returns an entry only if `kmalloc` returns a block. -/
theorem ptCreate_ok {vaddr p : ℕ} (hp : AsHeap.ptCreate answer vaddr h = .ok (p, h')) :
    p = answer h.calls ∧ p ≠ 0 ∧ p ∉ h.live ∧ h' = { h with
      pte := Function.update h.pte p ⟨vaddr, 0, false, false, 0⟩
      live := p :: h.live
      calls := h.calls + 1 } := by
  unfold AsHeap.ptCreate at hp
  obtain ⟨p', h₁, h1, hp⟩ := AsM.bind_eq_ok.mp hp
  obtain ⟨_, h₂, h2, hp⟩ := AsM.bind_eq_ok.mp hp
  cases hp
  obtain ⟨rfl, rfl, hl⟩ := kmalloc_ok h1
  obtain ⟨hn, rfl⟩ := storePte_ok h2
  exact ⟨rfl, hn, hl hn, by simp [hn]⟩

/-- The loop gets to its end only if every call of `kmalloc` returns a block. -/
theorem createPages_ok {page : ℕ → ℕ} {n i : ℕ} {ends : Option (ℕ × ℕ)}
    {res : Option (Option (ℕ × ℕ))} (hc : createPages answer page n i ends h = .ok (res, h')) :
    res ≠ none ∧ ∀ k < n, answer (h.calls + k) ≠ 0 := by
  induction n generalizing i ends h with
  | zero =>
    cases hc
    exact ⟨Option.some_ne_none _, fun k hk => absurd hk (Nat.not_lt_zero k)⟩
  | succ n ih =>
    rw [createPages] at hc
    obtain ⟨p, h₁, h1, hc⟩ := AsM.bind_eq_ok.mp hc
    obtain ⟨hp, hn, -, rfl⟩ := ptCreate_ok h1
    rw [if_neg hn] at hc
    have hrest : res ≠ none ∧ ∀ k < n, answer (h.calls + 1 + k) ≠ 0 := by
      cases ends with
      | none => exact ih hc
      | some ends =>
        obtain ⟨_, h₂, h2, hc⟩ := AsM.bind_eq_ok.mp hc
        obtain ⟨-, rfl⟩ := storePte_ok h2
        exact ih hc
    refine ⟨hrest.1, fun k hk => ?_⟩
    cases k with
    | zero => exact hp ▸ hn
    | succ k =>
      rw [Nat.add_comm k 1, ← Nat.add_assoc]
      exact hrest.2 k (by omega)

/-- A region is defined only if every call of `kmalloc` returns a block, and no error is returned. -/
theorem define_ok {vaddr npages segsz r w x : ℕ} {offset : ℤ} {page : ℕ → ℕ} {res : DefineResult}
    (hd : define answer vaddr offset npages segsz r w x page h = .ok (res, h')) :
    res = .done ∧ ∀ k < 2 + npages, answer (h.calls + k) ≠ 0 := by
  unfold define at hd
  obtain ⟨_, _, hget, hd⟩ := AsM.bind_eq_ok.mp hd
  cases hget
  obtain ⟨sgm, h₁, h1, hd⟩ := AsM.bind_eq_ok.mp hd
  obtain ⟨permission, hs, hp, hs0, hp0, -, -, rfl⟩ := sgmCreate_ok h1
  rw [if_neg hs0] at hd
  obtain ⟨_, _, hset, hd⟩ := AsM.bind_eq_ok.mp hd
  cases hset
  obtain ⟨pages, h₂, h2, hd⟩ := AsM.bind_eq_ok.mp hd
  obtain ⟨hne, hk⟩ := createPages_ok h2
  refine ⟨?_, fun k hlt => ?_⟩
  · match pages, hne, hd with
    | some (some (head, tail)), _, hd =>
      obtain ⟨_, _, -, hd⟩ := AsM.bind_eq_ok.mp hd
      obtain ⟨_, _, -, hd⟩ := AsM.bind_eq_ok.mp hd
      obtain ⟨_, _, -, hd⟩ := AsM.bind_eq_ok.mp hd
      obtain ⟨_, _, -, hd⟩ := AsM.bind_eq_ok.mp hd
      cases hd
      rfl
  · match k with
    | 0 => exact hs ▸ hs0
    | 1 => exact hp ▸ hp0
    | k + 2 =>
      have := hk k (by omega)
      change answer (h.calls + 2 + k) ≠ 0 at this
      rwa [Nat.add_assoc, Nat.add_comm 2 k] at this

/-- **The call fails cleanly**: it returns `ENOMEM`, with the two lists as they were and none of its
blocks left. -/
def FailsCleanly (m : AsM DefineResult) (h : AsHeap) : Prop :=
  ∃ h', m h = .ok (.enomem, h') ∧ h'.segments = h.segments ∧ h'.pt = h.pt ∧ h'.live = h.live

variable (answer h) in
/-- **No failure of `kmalloc` is reported**: `sgm_create` and `pt_create` write through its result
without a check. -/
theorem not_failsCleanly :
    (∀ vaddr offset sz r w x, (∃ k < 2 + regionPages vaddr sz, answer (h.calls + k) = 0) →
      ¬ FailsCleanly (AsHeap.asDefineRegion answer vaddr offset sz r w x) h) ∧
    ((∃ k < 2 + stackPages, answer (h.calls + k) = 0) →
      ¬ FailsCleanly (AsHeap.asDefineStack answer) h) := by
  constructor
  · rintro vaddr offset sz r w x ⟨k, hk, h0⟩ ⟨h', hd, -⟩
    exact (define_ok hd).2 k hk h0
  · rintro ⟨k, hk, h0⟩ ⟨h', hd, -⟩
    exact (define_ok hd).2 k hk h0

/-- Blocks of 32 bytes one after the other. -/
def blockAddr (k : ℕ) : ℕ := kseg0 + 0x40000 + 32 * k

/-- An address space without regions. -/
def emptyHeap : AsHeap :=
  ⟨0, 0, fun _ => ⟨0, 0, false, false, 0⟩, fun _ => ⟨0, 0, 0, 0, 0, 0, 0⟩, fun _ => ⟨0, 0, 0⟩, [], 0⟩

theorem not_failsCleanly_stack :
    ¬ FailsCleanly (AsHeap.asDefineStack fun k => if k = 1 then 0 else blockAddr k) emptyHeap :=
  (not_failsCleanly (fun k => if k = 1 then 0 else blockAddr k) emptyHeap).2
    ⟨1, by decide, rfl⟩

/-- **A second page without a block**: the kernel writes through `NULL`. -/
theorem asDefineRegion_nullPointer :
    (AsHeap.asDefineRegion (fun k => if k = 3 then 0 else blockAddr k) 0x400000 0 0x2000 4 0 1
      emptyHeap).map Prod.fst = .error (.panic .nullPointer) ∧
    ¬ FailsCleanly (AsHeap.asDefineRegion (fun k => if k = 3 then 0 else blockAddr k)
      0x400000 0 0x2000 4 0 1) emptyHeap := by
  have hrun : (AsHeap.asDefineRegion (fun k => if k = 3 then 0 else blockAddr k) 0x400000 0 0x2000
      4 0 1 emptyHeap).map Prod.fst = .error (.panic .nullPointer) := by decide +kernel
  refine ⟨hrun, ?_⟩
  rintro ⟨h', hd, -⟩
  rw [hd] at hrun
  cases hrun

end NoMemory

end Os161
