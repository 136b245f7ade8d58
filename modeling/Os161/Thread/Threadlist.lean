import Mathlib.Data.List.Basic
import Mathlib.Data.List.Nodup
import Mathlib.Order.Interval.Finset.Nat
import Os161.Lib.Links
import Os161.Machine.Stop
import Os161.Machine.Word

set_option autoImplicit false

/-!
# Thread lists

`threadlist.c`: doubly linked lists whose two bookends lie in the list's own structure, and a count.
A thread has one node, so it is on one list at a time.

* `TlMem`: the nodes of any number of lists; `TlMem.step`: the operations, with every pointer that is
  followed checked for `NULL` and with every `DEBUGASSERT` checked.
* `TlOp.apply`: the same operations on sequences of threads; `TlOp.Valid`: what a caller has to see to.
* `TlMem.Rep`: the nodes represent the sequences; `Rep.splice`, `Rep.unsplice`: one insertion and one
  removal.
* **`threadlist_refines`**: after any run of valid operations.
-/

namespace Os161

open Links Transition

/-- A `struct thread *` other than `NULL`. -/
structure ThreadPtr where
  addr : ℕ
  pos : 0 < addr
  lt : addr < wordSize
  deriving DecidableEq

/-- A `struct threadlistnode *` other than `NULL`: `tl_head`, `tl_tail` or `t_listnode`. -/
inductive ListNode (L : Type)
  | head (l : L)
  | tail (l : L)
  | thread (t : ThreadPtr)
  deriving DecidableEq

/-- The nodes and the fields `tl_count`. -/
structure TlMem (L : Type) where
  tlnPrev : ListNode L → Option (ListNode L)
  tlnNext : ListNode L → Option (ListNode L)
  tlnSelf : ListNode L → Option ThreadPtr
  tlCount : L → ℕ

/-- The operations on a list. -/
inductive TlOp (L : Type)
  | addhead (l : L) (t : ThreadPtr)
  | addtail (l : L) (t : ThreadPtr)
  | insertafter (l : L) (onlist addee : ThreadPtr)
  | insertbefore (l : L) (addee onlist : ThreadPtr)
  | remhead (l : L)
  | remtail (l : L)
  | remove (l : L) (t : ThreadPtr)

/-- `p->…`. -/
def deref {α : Type} : Option α → Except Stop α
  | some a => .ok a
  | none => .error (.panic .nullPointer)

theorem deref_bind {α β : Type} (a : α) (f : α → Except Stop β) : (deref (some a) >>= f) = f a := rfl

namespace TlMem

variable {L : Type}

/-- `threadlist_init` of every list and `threadlistnode_init` of every thread. -/
def init (L : Type) : TlMem L where
  tlnPrev n := match n with
    | .tail l => some (.head l)
    | _ => none
  tlnNext n := match n with
    | .head l => some (.tail l)
    | _ => none
  tlnSelf n := match n with
    | .thread t => some t
    | _ => none
  tlCount _ := 0

/-- `threadlist_isempty`. -/
def threadlistIsempty (m : TlMem L) (l : L) : Bool := m.tlCount l = 0

/-- `THREADLIST_FORALL` from the node `n` on, in at most `k` steps. -/
def threadlistForall (m : TlMem L) : ℕ → ListNode L → Except Stop (List ThreadPtr)
  | 0, _ => .error .blocked
  | k + 1, n => do
    match m.tlnSelf (← deref (m.tlnNext n)) with
    | none => return []
    | some t => return t :: (← m.threadlistForall k (.thread t))

/-- `THREADLIST_FORALL_REV`. -/
def threadlistForallRev (m : TlMem L) : ℕ → ListNode L → Except Stop (List ThreadPtr)
  | 0, _ => .error .blocked
  | k + 1, n => do
    match m.tlnSelf (← deref (m.tlnPrev n)) with
    | none => return []
    | some t => return t :: (← m.threadlistForallRev k (.thread t))

variable [DecidableEq L] (m : TlMem L)

/-- `n->tln_next = v`. -/
def setNext (n : ListNode L) (v : Option (ListNode L)) : TlMem L :=
  { m with tlnNext := Function.update m.tlnNext n v }

/-- `n->tln_prev = v`. -/
def setPrev (n : ListNode L) (v : Option (ListNode L)) : TlMem L :=
  { m with tlnPrev := Function.update m.tlnPrev n v }

/-- `tl_count++`. -/
def incCount (l : L) : TlMem L :=
  { m with tlCount := Function.update m.tlCount l (wadd (m.tlCount l) 1) }

/-- `tl_count--`. -/
def decCount (l : L) : TlMem L :=
  { m with tlCount := Function.update m.tlCount l (wsub (m.tlCount l) 1) }

/-- `threadlist_insertafternode`. -/
def threadlistInsertafternode (onlist : ListNode L) (t : ThreadPtr) : Except Stop (TlMem L) := do
  let addee : ListNode L := .thread t
  kassert (m.tlnPrev addee = none)
  kassert (m.tlnNext addee = none)
  let m₁ := m.setPrev addee (some onlist)
  let m₂ := m₁.setNext addee (m₁.tlnNext onlist)
  let p ← deref (m₂.tlnPrev addee)
  let m₃ := m₂.setNext p (some addee)
  let n ← deref (m₃.tlnNext addee)
  return m₃.setPrev n (some addee)

/-- `threadlist_insertbeforenode`. -/
def threadlistInsertbeforenode (t : ThreadPtr) (onlist : ListNode L) : Except Stop (TlMem L) := do
  let addee : ListNode L := .thread t
  kassert (m.tlnPrev addee = none)
  kassert (m.tlnNext addee = none)
  let m₁ := m.setPrev addee (m.tlnPrev onlist)
  let m₂ := m₁.setNext addee (some onlist)
  let p ← deref (m₂.tlnPrev addee)
  let m₃ := m₂.setNext p (some addee)
  let n ← deref (m₃.tlnNext addee)
  return m₃.setPrev n (some addee)

/-- `threadlist_removenode`. -/
def threadlistRemovenode (tln : ListNode L) : Except Stop (TlMem L) := do
  kassert (m.tlnPrev tln ≠ none)
  kassert (m.tlnNext tln ≠ none)
  let p ← deref (m.tlnPrev tln)
  let m₁ := m.setNext p (m.tlnNext tln)
  let n ← deref (m₁.tlnNext tln)
  let m₂ := m₁.setPrev n (m₁.tlnPrev tln)
  let m₃ := m₂.setPrev tln none
  return m₃.setNext tln none

/-- `threadlist_addhead`. -/
def threadlistAddhead (l : L) (t : ThreadPtr) : Except Stop (TlMem L) := do
  let m ← m.threadlistInsertafternode (.head l) t
  return m.incCount l

/-- `threadlist_addtail`. -/
def threadlistAddtail (l : L) (t : ThreadPtr) : Except Stop (TlMem L) := do
  let m ← m.threadlistInsertbeforenode t (.tail l)
  return m.incCount l

/-- `threadlist_remhead`. -/
def threadlistRemhead (l : L) : Except Stop (Option ThreadPtr × TlMem L) := do
  let tln ← deref (m.tlnNext (.head l))
  if m.tlnNext tln = none then return (none, m)
  else do
    let m ← m.threadlistRemovenode tln
    kassert (0 < m.tlCount l)
    return (m.tlnSelf tln, m.decCount l)

/-- `threadlist_remtail`. -/
def threadlistRemtail (l : L) : Except Stop (Option ThreadPtr × TlMem L) := do
  let tln ← deref (m.tlnPrev (.tail l))
  if m.tlnPrev tln = none then return (none, m)
  else do
    let m ← m.threadlistRemovenode tln
    kassert (0 < m.tlCount l)
    return (m.tlnSelf tln, m.decCount l)

/-- `threadlist_insertafter`. -/
def threadlistInsertafter (l : L) (onlist addee : ThreadPtr) : Except Stop (TlMem L) := do
  let m ← m.threadlistInsertafternode (.thread onlist) addee
  return m.incCount l

/-- `threadlist_insertbefore`. -/
def threadlistInsertbefore (l : L) (addee onlist : ThreadPtr) : Except Stop (TlMem L) := do
  let m ← m.threadlistInsertbeforenode addee (.thread onlist)
  return m.incCount l

/-- `threadlist_remove`. -/
def threadlistRemove (l : L) (t : ThreadPtr) : Except Stop (TlMem L) := do
  let m ← m.threadlistRemovenode (.thread t)
  kassert (0 < m.tlCount l)
  return m.decCount l

/-- `threadlist_cleanup`. -/
def threadlistCleanup (l : L) : Except Stop Unit := do
  kassert (m.tlnNext (.head l) = some (.tail l))
  kassert (m.tlnPrev (.head l) = none)
  kassert (m.tlnNext (.tail l) = none)
  kassert (m.tlnPrev (.tail l) = some (.head l))
  kassert (m.tlnSelf (.head l) = none)
  kassert (m.tlnSelf (.tail l) = none)
  kassert (m.threadlistIsempty l = true)
  kassert (m.tlCount l = 0)

/-- One operation, and the thread that it returns. -/
def step : TlOp L → Except Stop (Option ThreadPtr × TlMem L)
  | .addhead l t => do return (none, ← m.threadlistAddhead l t)
  | .addtail l t => do return (none, ← m.threadlistAddtail l t)
  | .insertafter l onlist addee => do return (none, ← m.threadlistInsertafter l onlist addee)
  | .insertbefore l addee onlist => do return (none, ← m.threadlistInsertbefore l addee onlist)
  | .remhead l => m.threadlistRemhead l
  | .remtail l => m.threadlistRemtail l
  | .remove l t => do return (none, ← m.threadlistRemove l t)

/-- A sequence of operations, and what they return. -/
def steps (m : TlMem L) : List (TlOp L) → Except Stop (List (Option ThreadPtr) × TlMem L)
  | [] => return ([], m)
  | op :: ops => do
    let (r, m) ← m.step op
    let (rs, m) ← m.steps ops
    return (r :: rs, m)

end TlMem

/-! ## Sequences of threads -/

namespace TlOp

variable {L : Type}

/-- **What the caller sees to**: a thread that is added is on no list, and a neighbour or a thread that
is removed is a member. -/
def Valid (s : L → List ThreadPtr) : TlOp L → Prop
  | .addhead _ t | .addtail _ t => ∀ l, t ∉ s l
  | .insertafter l onlist addee | .insertbefore l addee onlist => onlist ∈ s l ∧ ∀ l, addee ∉ s l
  | .remhead _ | .remtail _ => True
  | .remove l t => t ∈ s l

variable [DecidableEq L] (s : L → List ThreadPtr)

/-- **The operation on sequences**, and the thread that it returns. -/
def apply : TlOp L → Option ThreadPtr × (L → List ThreadPtr)
  | .addhead l t => (none, Function.update s l (t :: s l))
  | .addtail l t => (none, Function.update s l (s l ++ [t]))
  | .insertafter l onlist addee =>
    (none, Function.update s l ((s l).flatMap fun t => if t = onlist then [t, addee] else [t]))
  | .insertbefore l addee onlist =>
    (none, Function.update s l ((s l).flatMap fun t => if t = onlist then [addee, t] else [t]))
  | .remhead l => ((s l).head?, Function.update s l (s l).tail)
  | .remtail l => ((s l).getLast?, Function.update s l (s l).dropLast)
  | .remove l t => (none, Function.update s l ((s l).erase t))

/-- A sequence of operations. -/
def applyAll (s : L → List ThreadPtr) :
    List (TlOp L) → List (Option ThreadPtr) × (L → List ThreadPtr)
  | [] => ([], s)
  | op :: ops =>
    let (r, s) := op.apply s
    let (rs, s) := applyAll s ops
    (r :: rs, s)

/-- Every operation is valid where it is called. -/
def ValidAll (s : L → List ThreadPtr) : List (TlOp L) → Prop
  | [] => True
  | op :: ops => op.Valid s ∧ ValidAll (op.apply s).2 ops

end TlOp

/-! ## The representation -/

section Rep

variable {L : Type}

/-- The nodes of a list, from bookend to bookend. -/
def listNodes (l : L) (ts : List ThreadPtr) : List (ListNode L) :=
  .head l :: (ts.map .thread ++ [.tail l])

/-- **The nodes represent the sequences.** -/
structure TlMem.Rep (m : TlMem L) (s : L → List ThreadPtr) : Prop where
  linked : ∀ l, Linked m.tlnNext m.tlnPrev (listNodes l (s l))
  first : ∀ l, m.tlnPrev (.head l) = none
  last : ∀ l, m.tlnNext (.tail l) = none
  nodup : ∀ l, (s l).Nodup
  apart : ∀ {l l' t}, t ∈ s l → t ∈ s l' → l = l'
  off : ∀ t, (∀ l, t ∉ s l) → m.tlnNext (.thread t) = none ∧ m.tlnPrev (.thread t) = none
  self : (∀ t, m.tlnSelf (.thread t) = some t) ∧
    ∀ l, m.tlnSelf (.head l) = none ∧ m.tlnSelf (.tail l) = none
  count : ∀ l, m.tlCount l = (s l).length

variable {l l' : L} {ts ts' : List ThreadPtr} {t : ThreadPtr} {n : ListNode L}

@[simp] theorem thread_mem_listNodes : ListNode.thread t ∈ listNodes l ts ↔ t ∈ ts := by
  simp [listNodes]

@[simp] theorem head_mem_listNodes : ListNode.head l' ∈ listNodes l ts ↔ l' = l := by
  simp [listNodes]

@[simp] theorem tail_mem_listNodes : ListNode.tail l' ∈ listNodes l ts ↔ l' = l := by
  simp [listNodes]

@[simp] theorem length_listNodes : (listNodes l ts).length = ts.length + 2 := by
  simp [listNodes]

variable (l ts) in
/-- The node before the end of a list. -/
theorem exists_last : ∃ pre a, ListNode.head l :: ts.map .thread = pre ++ [a] :=
  ⟨_, _, (List.dropLast_append_getLast (List.cons_ne_nil _ _)).symm⟩

variable (l ts) in
/-- The node behind the start of a list. -/
theorem exists_first : ∃ b post, ts.map .thread ++ [ListNode.tail l] = b :: post :=
  List.exists_cons_of_ne_nil (by simp)

theorem nodup_listNodes : (listNodes l ts).Nodup ↔ ts.Nodup := by
  have hinj : Function.Injective (ListNode.thread (L := L)) := fun _ _ h => ListNode.thread.inj h
  simp [listNodes, List.nodup_append, List.nodup_map_iff hinj]

/-- One element of a list is replaced. -/
theorem flatMap_of_nodup {ts₁ ts₂ ts : List ThreadPtr} {f : ThreadPtr → List ThreadPtr}
    (hnd : (ts₁ ++ t :: ts₂).Nodup) (ht : f t = ts) (hf : ∀ t' ≠ t, f t' = [t']) :
    (ts₁ ++ t :: ts₂).flatMap f = ts₁ ++ (ts ++ ts₂) := by
  have hsame : ∀ {us : List ThreadPtr}, t ∉ us → us.flatMap f = us := by
    intro us hus
    have : us.flatMap f = us.flatMap fun u => [u] :=
      List.flatMap_congr fun u hu => hf u fun e => hus (e ▸ hu)
    rw [this, List.flatMap_singleton']
  obtain ⟨-, hcons, hdis⟩ := List.nodup_append.mp hnd
  have h₁ : t ∉ ts₁ := fun hmem => hdis t hmem t List.mem_cons_self rfl
  have h₂ : t ∉ ts₂ := (List.nodup_cons.mp hcons).1
  rw [List.flatMap_append, List.flatMap_cons, hsame h₁, hsame h₂, ht]

/-- There are fewer threads than words. -/
theorem length_lt_wordSize (h : ts.Nodup) : ts.length < wordSize := by
  have hinj : Function.Injective ThreadPtr.addr := by
    rintro ⟨a, _, _⟩ ⟨b, _, _⟩ h
    cases h
    rfl
  have hsub : (ts.map ThreadPtr.addr).toFinset ⊆ Finset.Ico 1 wordSize := by
    intro a ha
    obtain ⟨t, -, rfl⟩ := List.mem_map.mp (List.mem_toFinset.mp ha)
    exact Finset.mem_Ico.mpr ⟨t.pos, t.lt⟩
  have hcard := Finset.card_le_card hsub
  rw [List.toFinset_card_of_nodup (h.map hinj), List.length_map, Nat.card_Ico] at hcard
  have : 0 < wordSize := by decide
  omega

end Rep

/-! ## One insertion and one removal -/

namespace TlMem

variable {L : Type} [DecidableEq L] {m : TlMem L} {s : L → List ThreadPtr} {l l' : L}
  {pre post : List (ListNode L)} {a b n : ListNode L} {ts : List ThreadPtr} {t : ThreadPtr}

/-- The links after an insertion of `x` between `a` and `b`. -/
def splice (m : TlMem L) (a x b : ListNode L) : TlMem L :=
  { m with
    tlnNext := Function.update (Function.update m.tlnNext x (some b)) a (some x)
    tlnPrev := Function.update (Function.update m.tlnPrev x (some a)) b (some x) }

/-- The links after a removal of `x` from between `a` and `b`. -/
def unsplice (m : TlMem L) (a x b : ListNode L) : TlMem L :=
  { m with
    tlnNext := Function.update (Function.update m.tlnNext a (some b)) x none
    tlnPrev := Function.update (Function.update m.tlnPrev b (some a)) x none }

theorem threadlistInsertafternode_eq (hoff : m.tlnNext (.thread t) = none ∧
    m.tlnPrev (.thread t) = none) (hab : m.tlnNext a = some b) (ha : a ≠ .thread t) :
    m.threadlistInsertafternode a t = .ok (m.splice a (.thread t) b) := by
  unfold threadlistInsertafternode
  rw [kassert_bind hoff.2, kassert_bind hoff.1]
  simp only [setPrev, setNext, hab, Function.update_self, deref_bind,
    Function.update_of_ne (Ne.symm ha)]
  rfl

theorem threadlistInsertbeforenode_eq (hoff : m.tlnNext (.thread t) = none ∧
    m.tlnPrev (.thread t) = none) (hab : m.tlnPrev b = some a) (ha : a ≠ .thread t) :
    m.threadlistInsertbeforenode t b = .ok (m.splice a (.thread t) b) := by
  unfold threadlistInsertbeforenode
  rw [kassert_bind hoff.2, kassert_bind hoff.1]
  simp only [setPrev, setNext, hab, Function.update_self, deref_bind,
    Function.update_of_ne (Ne.symm ha)]
  rfl

theorem threadlistRemovenode_eq (hp : m.tlnPrev n = some a) (hn : m.tlnNext n = some b)
    (ha : a ≠ n) : m.threadlistRemovenode n = .ok (m.unsplice a n b) := by
  unfold threadlistRemovenode
  rw [kassert_bind (by rw [hp]; exact Option.some_ne_none _),
    kassert_bind (by rw [hn]; exact Option.some_ne_none _)]
  simp only [setPrev, setNext, hp, hn, deref_bind, Function.update_of_ne (Ne.symm ha)]
  rfl

namespace Rep

variable (h : m.Rep s)

include h

omit [DecidableEq L] in
/-- A node belongs to one list. -/
theorem apart_nodes (hn : n ∈ listNodes l (s l)) (hn' : n ∈ listNodes l' (s l')) : l = l' := by
  cases n with
  | head l₀ => exact (head_mem_listNodes.mp hn).symm.trans (head_mem_listNodes.mp hn')
  | tail l₀ => exact (tail_mem_listNodes.mp hn).symm.trans (tail_mem_listNodes.mp hn')
  | thread t => exact h.apart (thread_mem_listNodes.mp hn) (thread_mem_listNodes.mp hn')

/-- **A change of one list**: the thread `t` enters or leaves the list `l`, and only the links of the
nodes of this list and of the thread are written. -/
theorem change {m' : TlMem L} (hself : m'.tlnSelf = m.tlnSelf)
    (hnext : ∀ n ∉ listNodes l (s l), n ≠ .thread t → m'.tlnNext n = m.tlnNext n)
    (hprev : ∀ n ∉ listNodes l (s l), n ≠ .thread t → m'.tlnPrev n = m.tlnPrev n)
    (hlink : Linked m'.tlnNext m'.tlnPrev (listNodes l ts))
    (hends : m'.tlnPrev (.head l) = none ∧ m'.tlnNext (.tail l) = none) (hnodup : ts.Nodup)
    (ht : ∀ l' ≠ l, t ∉ s l') (hmem : ∀ t' ≠ t, t' ∈ ts ↔ t' ∈ s l)
    (hoff : t ∉ ts → m'.tlnNext (.thread t) = none ∧ m'.tlnPrev (.thread t) = none)
    (hcount : m'.tlCount = Function.update m.tlCount l ts.length) :
    m'.Rep (Function.update s l ts) := by
  have hother : ∀ {l'}, l' ≠ l → ∀ n ∈ listNodes l' (s l'),
      n ∉ listNodes l (s l) ∧ n ≠ .thread t := by
    intro l' hl n hn
    refine ⟨fun hn' => hl (h.apart_nodes hn hn'), ?_⟩
    rintro rfl
    exact ht l' hl (thread_mem_listNodes.mp hn)
  -- away from `t` the membership is the old one
  have hsame : ∀ {l' t'}, t' ≠ t → (t' ∈ Function.update s l ts l' ↔ t' ∈ s l') := by
    intro l' t' hne
    by_cases hl : l' = l
    · subst hl
      rw [Function.update_self]
      exact hmem t' hne
    · rw [Function.update_of_ne hl]
  have hin : ∀ {l'}, t ∈ Function.update s l ts l' → l' = l := by
    intro l' hl'
    by_contra hl
    rw [Function.update_of_ne hl] at hl'
    exact ht l' hl hl'
  refine ⟨fun l' => ?_, fun l' => ?_, fun l' => ?_, fun l' => ?_, ?_, fun t' ht' => ?_, ?_,
    fun l' => ?_⟩
  · by_cases hl : l' = l
    · subst hl
      rw [Function.update_self]
      exact hlink
    · rw [Function.update_of_ne hl]
      refine (h.linked l').congr (fun n hn => ?_) (fun n hn => ?_)
      · obtain ⟨h₁, h₂⟩ := hother hl n (List.dropLast_subset _ hn)
        exact hnext n h₁ h₂
      · obtain ⟨h₁, h₂⟩ := hother hl n (List.mem_of_mem_tail hn)
        exact hprev n h₁ h₂
  · by_cases hl : l' = l
    · exact hl ▸ hends.1
    · obtain ⟨h₁, h₂⟩ := hother hl (.head l') (head_mem_listNodes.mpr rfl)
      exact (hprev _ h₁ h₂).trans (h.first l')
  · by_cases hl : l' = l
    · exact hl ▸ hends.2
    · obtain ⟨h₁, h₂⟩ := hother hl (.tail l') (tail_mem_listNodes.mpr rfl)
      exact (hnext _ h₁ h₂).trans (h.last l')
  · by_cases hl : l' = l
    · subst hl
      rwa [Function.update_self]
    · rw [Function.update_of_ne hl]
      exact h.nodup l'
  · intro l₁ l₂ t' h₁ h₂
    by_cases hne : t' = t
    · subst hne
      exact (hin h₁).trans (hin h₂).symm
    · exact h.apart ((hsame hne).mp h₁) ((hsame hne).mp h₂)
  · by_cases hne : t' = t
    · subst hne
      refine hoff fun hts => ht' l ?_
      rwa [Function.update_self]
    · have hnot : ∀ l', t' ∉ s l' := fun l' hl' => ht' l' ((hsame hne).mpr hl')
      have hnode : ListNode.thread t' ∉ listNodes l (s l) := fun hn =>
        hnot l (thread_mem_listNodes.mp hn)
      have hx : ListNode.thread (L := L) t' ≠ .thread t := fun e => hne (ListNode.thread.inj e)
      exact ⟨(hnext _ hnode hx).trans (h.off t' hnot).1,
        (hprev _ hnode hx).trans (h.off t' hnot).2⟩
  · rw [hself]
    exact h.self
  · rw [hcount]
    by_cases hl : l' = l
    · subst hl
      rw [Function.update_self, Function.update_self]
    · rw [Function.update_of_ne hl, Function.update_of_ne hl]
      exact h.count l'

/-- **One insertion.** -/
theorem splice (hs : listNodes l (s l) = pre ++ a :: b :: post)
    (hts : listNodes l ts = pre ++ a :: .thread t :: b :: post) (ht : ∀ l, t ∉ s l) :
    ((m.splice a (.thread t) b).incCount l).Rep (Function.update s l ts) := by
  have hlink : Linked m.tlnNext m.tlnPrev (pre ++ a :: b :: post) := hs ▸ h.linked l
  have hnd : (pre ++ a :: b :: post).Nodup := hs ▸ nodup_listNodes.mpr (h.nodup l)
  have hx : ListNode.thread t ∉ pre ++ a :: b :: post := by
    rw [← hs, thread_mem_listNodes]
    exact ht l
  have hmema : a ∈ listNodes l (s l) := by rw [hs]; simp
  have hmemb : b ∈ listNodes l (s l) := by rw [hs]; simp
  have hnodup : ts.Nodup := by
    rw [← nodup_listNodes (l := l), hts]
    simp only [List.nodup_append, List.nodup_cons, List.mem_cons, List.mem_append] at hnd hx ⊢
    grind
  have hlen : ts.length = (s l).length + 1 := by
    have h₁ := congrArg List.length hs
    have h₂ := congrArg List.length hts
    simp only [length_listNodes, List.length_append, List.length_cons] at h₁ h₂
    omega
  refine h.change (t := t) rfl ?_ ?_ (hts ▸ hlink.insert hnd hx) ⟨?_, ?_⟩ hnodup
    (fun l' _ => ht l') ?_ ?_ ?_
  · intro n hn hne
    have hna : n ≠ a := fun e => hn (e ▸ hmema)
    exact (Function.update_of_ne hna _ _).trans (Function.update_of_ne hne _ _)
  · intro n hn hne
    have hnb : n ≠ b := fun e => hn (e ▸ hmemb)
    exact (Function.update_of_ne hnb _ _).trans (Function.update_of_ne hne _ _)
  · have hb : ListNode.head l ≠ b := by
      rintro rfl
      cases (h.first l).symm.trans (hlink.prev_eq _ _)
    exact (Function.update_of_ne hb _ _).trans
      ((Function.update_of_ne (by simp) _ _).trans (h.first l))
  · have ha : ListNode.tail l ≠ a := by
      rintro rfl
      cases (h.last l).symm.trans (hlink.next_eq _ _)
    exact (Function.update_of_ne ha _ _).trans
      ((Function.update_of_ne (by simp) _ _).trans (h.last l))
  · intro t' hne
    rw [← thread_mem_listNodes (l := l), hts, ← thread_mem_listNodes (l := l), hs]
    simp only [List.mem_append, List.mem_cons, ListNode.thread.injEq, hne, false_or]
  · intro hnot
    refine absurd ?_ hnot
    rw [← thread_mem_listNodes (l := l), hts]
    simp
  · change Function.update m.tlCount l (wadd (m.tlCount l) 1) = _
    have hlt := length_lt_wordSize hnodup
    rw [h.count, wadd_of_lt (by omega), hlen]

/-- **One removal.** -/
theorem unsplice (hs : listNodes l (s l) = pre ++ a :: .thread t :: b :: post)
    (hts : listNodes l ts = pre ++ a :: b :: post) :
    ((m.unsplice a (.thread t) b).decCount l).Rep (Function.update s l ts) := by
  have hlink : Linked m.tlnNext m.tlnPrev (pre ++ a :: .thread t :: b :: post) := hs ▸ h.linked l
  have hnd : (pre ++ a :: .thread t :: b :: post).Nodup := hs ▸ nodup_listNodes.mpr (h.nodup l)
  have hmema : a ∈ listNodes l (s l) := by rw [hs]; simp
  have hmemb : b ∈ listNodes l (s l) := by rw [hs]; simp
  have hmemt : t ∈ s l := by
    rw [← thread_mem_listNodes (l := l), hs]
    simp
  have hnodup : (pre ++ a :: b :: post).Nodup := by
    simp only [List.nodup_append, List.nodup_cons, List.mem_cons] at hnd ⊢
    grind
  have hlen : (s l).length = ts.length + 1 := by
    have h₁ := congrArg List.length hs
    have h₂ := congrArg List.length hts
    simp only [length_listNodes, List.length_append, List.length_cons] at h₁ h₂
    omega
  refine h.change (t := t) rfl ?_ ?_ (hts ▸ hlink.remove hnd) ⟨?_, ?_⟩
    (nodup_listNodes.mp (hts ▸ hnodup)) (fun l' hl ht => hl (h.apart ht hmemt)) ?_ ?_ ?_
  · intro n hn hne
    have hna : n ≠ a := fun e => hn (e ▸ hmema)
    exact (Function.update_of_ne hne _ _).trans (Function.update_of_ne hna _ _)
  · intro n hn hne
    have hnb : n ≠ b := fun e => hn (e ▸ hmemb)
    exact (Function.update_of_ne hne _ _).trans (Function.update_of_ne hnb _ _)
  · have hb : ListNode.head l ≠ b := by
      rintro rfl
      have hlink' : Linked m.tlnNext m.tlnPrev
          ((pre ++ [a]) ++ .thread t :: .head l :: post) := by simpa using hlink
      cases (h.first l).symm.trans (hlink'.prev_eq _ _)
    have hx : ListNode.head l ≠ .thread t := by simp
    exact (Function.update_of_ne hx none _).trans
      ((Function.update_of_ne hb _ _).trans (h.first l))
  · have ha : ListNode.tail l ≠ a := by
      rintro rfl
      cases (h.last l).symm.trans (hlink.next_eq _ _)
    have hx : ListNode.tail l ≠ .thread t := by simp
    exact (Function.update_of_ne hx none _).trans
      ((Function.update_of_ne ha _ _).trans (h.last l))
  · intro t' hne
    rw [← thread_mem_listNodes (l := l), hts, ← thread_mem_listNodes (l := l), hs]
    simp only [List.mem_append, List.mem_cons, ListNode.thread.injEq, hne, false_or]
  · exact fun _ => ⟨Function.update_self .., Function.update_self ..⟩
  · change Function.update m.tlCount l (wsub (m.tlCount l) 1) = _
    have hlt := length_lt_wordSize (h.nodup l)
    rw [h.count, wsub_of_le (by omega) hlt, hlen, Nat.add_sub_cancel]

/-! ## The operations -/

/-- An insertion behind a node of the list. -/
theorem insertafternode (hs : listNodes l (s l) = pre ++ a :: b :: post)
    (hts : listNodes l ts = pre ++ a :: .thread t :: b :: post) (ht : ∀ l, t ∉ s l) :
    ∃ m', m.threadlistInsertafternode a t = .ok m' ∧
      (m'.incCount l).Rep (Function.update s l ts) := by
  have hlink : Linked m.tlnNext m.tlnPrev (pre ++ a :: b :: post) := hs ▸ h.linked l
  have ha : a ≠ .thread t := by
    rintro rfl
    exact ht l (thread_mem_listNodes.mp (by rw [hs]; simp))
  exact ⟨_, threadlistInsertafternode_eq (h.off t ht) (hlink.next_eq _ _) ha, h.splice hs hts ht⟩

/-- An insertion in front of a node of the list. -/
theorem insertbeforenode (hs : listNodes l (s l) = pre ++ a :: b :: post)
    (hts : listNodes l ts = pre ++ a :: .thread t :: b :: post) (ht : ∀ l, t ∉ s l) :
    ∃ m', m.threadlistInsertbeforenode t b = .ok m' ∧
      (m'.incCount l).Rep (Function.update s l ts) := by
  have hlink : Linked m.tlnNext m.tlnPrev (pre ++ a :: b :: post) := hs ▸ h.linked l
  have ha : a ≠ .thread t := by
    rintro rfl
    exact ht l (thread_mem_listNodes.mp (by rw [hs]; simp))
  exact ⟨_, threadlistInsertbeforenode_eq (h.off t ht) (hlink.prev_eq _ _) ha, h.splice hs hts ht⟩

/-- A removal. -/
theorem removenode {ts₁ ts₂ : List ThreadPtr} (hs : s l = ts₁ ++ t :: ts₂) :
    ∃ m', m.threadlistRemovenode (.thread t) = .ok m' ∧ 0 < m'.tlCount l ∧
      m'.tlnSelf (.thread t) = some t ∧
      (m'.decCount l).Rep (Function.update s l (ts₁ ++ ts₂)) := by
  obtain ⟨pre, a, hpre⟩ := exists_last l ts₁
  obtain ⟨b, post, hpost⟩ := exists_first l ts₂
  have hnodes : listNodes l (s l) = pre ++ a :: .thread t :: b :: post := by
    rw [hs, listNodes, List.map_append, List.map_cons, List.append_assoc, List.cons_append, hpost,
      ← List.cons_append, hpre, List.append_assoc]
    rfl
  have hnodes' : listNodes l (ts₁ ++ ts₂) = pre ++ a :: b :: post := by
    rw [listNodes, List.map_append, List.append_assoc, hpost, ← List.cons_append, hpre,
      List.append_assoc]
    rfl
  have hlink : Linked m.tlnNext m.tlnPrev (pre ++ a :: .thread t :: b :: post) :=
    hnodes ▸ h.linked l
  have hlink' : Linked m.tlnNext m.tlnPrev ((pre ++ [a]) ++ .thread t :: b :: post) := by
    simpa using hlink
  have hnd : (pre ++ a :: .thread t :: b :: post).Nodup := hnodes ▸ nodup_listNodes.mpr (h.nodup l)
  have ha : a ≠ .thread t := by
    rintro rfl
    simp [List.nodup_append] at hnd
  refine ⟨_, threadlistRemovenode_eq (hlink.prev_eq _ _) (hlink'.next_eq _ _) ha, ?_, h.self.1 t,
    h.unsplice hnodes hnodes'⟩
  change 0 < m.tlCount l
  rw [h.count, hs, List.length_append, List.length_cons]
  omega

theorem addhead (ht : ∀ l, t ∉ s l) :
    ∃ m', m.threadlistAddhead l t = .ok m' ∧ m'.Rep (Function.update s l (t :: s l)) := by
  obtain ⟨b, post, hpost⟩ := exists_first l (s l)
  have hs : listNodes l (s l) = [] ++ .head l :: b :: post := by rw [listNodes, hpost]; rfl
  have hts : listNodes l (t :: s l) = [] ++ .head l :: .thread t :: b :: post := by
    rw [listNodes, List.map_cons, List.cons_append, hpost]
    rfl
  obtain ⟨m', hm, hrep⟩ := h.insertafternode hs hts ht
  refine ⟨m'.incCount l, ?_, hrep⟩
  rw [threadlistAddhead, hm]
  rfl

theorem addtail (ht : ∀ l, t ∉ s l) :
    ∃ m', m.threadlistAddtail l t = .ok m' ∧ m'.Rep (Function.update s l (s l ++ [t])) := by
  obtain ⟨pre, a, hpre⟩ := exists_last l (s l)
  have hs : listNodes l (s l) = pre ++ a :: .tail l :: [] := by
    rw [listNodes, ← List.cons_append, hpre, List.append_assoc]
    rfl
  have hts : listNodes l (s l ++ [t]) = pre ++ a :: .thread t :: .tail l :: [] := by
    rw [listNodes, List.map_append, List.append_assoc, ← List.cons_append, hpre,
      List.append_assoc]
    rfl
  obtain ⟨m', hm, hrep⟩ := h.insertbeforenode hs hts ht
  refine ⟨m'.incCount l, ?_, hrep⟩
  rw [threadlistAddtail, hm]
  rfl

theorem insertafter {onlist : ThreadPtr} {ts₁ ts₂ : List ThreadPtr}
    (hsplit : s l = ts₁ ++ onlist :: ts₂) (ht : ∀ l, t ∉ s l) :
    ∃ m', m.threadlistInsertafter l onlist t = .ok m' ∧
      m'.Rep (Function.update s l (ts₁ ++ onlist :: t :: ts₂)) := by
  obtain ⟨b, post, hpost⟩ := exists_first l ts₂
  have hs : listNodes l (s l) =
      (ListNode.head l :: ts₁.map .thread) ++ .thread onlist :: b :: post := by
    rw [hsplit, listNodes, List.map_append, List.map_cons, List.append_assoc, List.cons_append,
      hpost]
    rfl
  have hts : listNodes l (ts₁ ++ onlist :: t :: ts₂) =
      (ListNode.head l :: ts₁.map .thread) ++ .thread onlist :: .thread t :: b :: post := by
    rw [listNodes, List.map_append, List.map_cons, List.map_cons, List.append_assoc,
      List.cons_append, List.cons_append, hpost]
    rfl
  obtain ⟨m', hm, hrep⟩ := h.insertafternode hs hts ht
  refine ⟨m'.incCount l, ?_, hrep⟩
  rw [threadlistInsertafter, hm]
  rfl

theorem insertbefore {onlist : ThreadPtr} {ts₁ ts₂ : List ThreadPtr}
    (hsplit : s l = ts₁ ++ onlist :: ts₂) (ht : ∀ l, t ∉ s l) :
    ∃ m', m.threadlistInsertbefore l t onlist = .ok m' ∧
      m'.Rep (Function.update s l (ts₁ ++ t :: onlist :: ts₂)) := by
  obtain ⟨pre, a, hpre⟩ := exists_last l ts₁
  have hs : listNodes l (s l) =
      pre ++ a :: .thread onlist :: (ts₂.map .thread ++ [ListNode.tail l]) := by
    rw [hsplit, listNodes, List.map_append, List.append_assoc, ← List.cons_append, hpre,
      List.append_assoc]
    rfl
  have hts : listNodes l (ts₁ ++ t :: onlist :: ts₂) =
      pre ++ a :: .thread t :: .thread onlist :: (ts₂.map .thread ++ [ListNode.tail l]) := by
    rw [listNodes, List.map_append, List.append_assoc, ← List.cons_append, hpre,
      List.append_assoc]
    rfl
  obtain ⟨m', hm, hrep⟩ := h.insertbeforenode hs hts ht
  refine ⟨m'.incCount l, ?_, hrep⟩
  rw [threadlistInsertbefore, hm]
  rfl

omit [DecidableEq L] in
theorem next_of_nil (hs : s l = []) :
    m.tlnNext (.head l) = some (.tail l) ∧ m.tlnPrev (.tail l) = some (.head l) := by
  have hlink := h.linked l
  rw [hs] at hlink
  exact ⟨Linked.next_eq [] [] hlink, Linked.prev_eq [] [] hlink⟩

theorem remhead_nil (hs : s l = []) : m.threadlistRemhead l = .ok (none, m) := by
  simp only [threadlistRemhead, (h.next_of_nil hs).1, deref_bind, if_pos (h.last l)]
  rfl

theorem remtail_nil (hs : s l = []) : m.threadlistRemtail l = .ok (none, m) := by
  simp only [threadlistRemtail, (h.next_of_nil hs).2, deref_bind, if_pos (h.first l)]
  rfl

omit [DecidableEq L] in
/-- A thread on a list has links. -/
theorem links_ne_none (ht : t ∈ s l) :
    m.tlnNext (.thread t) ≠ none ∧ m.tlnPrev (.thread t) ≠ none := by
  obtain ⟨ts₁, ts₂, hsplit⟩ := List.append_of_mem ht
  obtain ⟨pre, a, hpre⟩ := exists_last l ts₁
  obtain ⟨b, post, hpost⟩ := exists_first l ts₂
  have hlink := h.linked l
  have hnodes : listNodes l (s l) = pre ++ a :: .thread t :: b :: post := by
    rw [hsplit, listNodes, List.map_append, List.map_cons, List.append_assoc, List.cons_append,
      hpost, ← List.cons_append, hpre, List.append_assoc]
    rfl
  rw [hnodes] at hlink
  have hnext : m.tlnNext (.thread t) = some b :=
    Linked.next_eq (pre ++ [a]) post (by simpa using hlink)
  rw [hnext, hlink.prev_eq _ _]
  exact ⟨Option.some_ne_none _, Option.some_ne_none _⟩

theorem remhead_cons (hs : s l = t :: ts) :
    ∃ m', m.threadlistRemhead l = .ok (some t, m') ∧ m'.Rep (Function.update s l ts) := by
  have hlink := h.linked l
  rw [hs] at hlink
  have hnext : m.tlnNext (.head l) = some (.thread t) := Linked.next_eq [] _ hlink
  have hne := (h.links_ne_none (l := l) (t := t) (by rw [hs]; exact List.mem_cons_self)).1
  obtain ⟨m', hm, hcount, hself, hrep⟩ := h.removenode (show s l = [] ++ t :: ts from hs)
  refine ⟨m'.decCount l, ?_, hrep⟩
  simp only [threadlistRemhead, hnext, deref_bind, if_neg hne, hm]
  change (kassert (0 < m'.tlCount l) >>= _) = _
  rw [kassert_bind hcount, hself]
  rfl

theorem remtail_concat (hs : s l = ts ++ [t]) :
    ∃ m', m.threadlistRemtail l = .ok (some t, m') ∧ m'.Rep (Function.update s l ts) := by
  have hlink := h.linked l
  have hnodes : listNodes l (s l) = (.head l :: ts.map .thread) ++ .thread t :: .tail l :: [] := by
    rw [hs, listNodes, List.map_append, List.append_assoc]
    rfl
  rw [hnodes] at hlink
  have hprev := hlink.prev_eq _ _
  have hne := (h.links_ne_none (l := l) (t := t) (by rw [hs]; simp)).2
  obtain ⟨m', hm, hcount, hself, hrep⟩ := h.removenode hs
  rw [List.append_nil] at hrep
  refine ⟨m'.decCount l, ?_, hrep⟩
  simp only [threadlistRemtail, hprev, deref_bind, if_neg hne, hm]
  change (kassert (0 < m'.tlCount l) >>= _) = _
  rw [kassert_bind hcount, hself]
  rfl

theorem remove {ts₁ ts₂ : List ThreadPtr} (hs : s l = ts₁ ++ t :: ts₂) :
    ∃ m', m.threadlistRemove l t = .ok m' ∧ m'.Rep (Function.update s l (ts₁ ++ ts₂)) := by
  obtain ⟨m', hm, hcount, -, hrep⟩ := h.removenode hs
  refine ⟨m'.decCount l, ?_, hrep⟩
  rw [threadlistRemove, hm]
  change (kassert (0 < m'.tlCount l) >>= _) = _
  rw [kassert_bind hcount]
  rfl

omit [DecidableEq L] in
/-- A list is empty where its count says so. -/
theorem isempty_iff : m.threadlistIsempty l = true ↔ s l = [] := by
  rw [threadlistIsempty, h.count, decide_eq_true_eq, List.length_eq_zero_iff]

/-- An empty list is cleaned up. -/
theorem cleanup (hs : s l = []) : m.threadlistCleanup l = .ok () := by
  obtain ⟨hnext, hprev⟩ := h.next_of_nil hs
  obtain ⟨hself, hself'⟩ := h.self.2 l
  have hcount : m.tlCount l = 0 := by rw [h.count, hs]; rfl
  unfold threadlistCleanup
  rw [kassert_bind hnext, kassert_bind (h.first l), kassert_bind (h.last l), kassert_bind hprev,
    kassert_bind hself, kassert_bind hself', kassert_bind (h.isempty_iff.mpr hs)]
  exact if_pos hcount

/-- **Every valid operation** runs to its end and follows the operation on sequences. -/
theorem step {op : TlOp L} (hv : op.Valid s) :
    ∃ m', m.step op = .ok ((op.apply s).1, m') ∧ m'.Rep (op.apply s).2 := by
  cases op with
  | addhead l t =>
    obtain ⟨m', hm, hrep⟩ := h.addhead hv
    exact ⟨m', by rw [TlMem.step, hm]; rfl, hrep⟩
  | addtail l t =>
    obtain ⟨m', hm, hrep⟩ := h.addtail hv
    exact ⟨m', by rw [TlMem.step, hm]; rfl, hrep⟩
  | insertafter l onlist addee =>
    obtain ⟨ts₁, ts₂, hsplit⟩ := List.append_of_mem hv.1
    have hnew := flatMap_of_nodup (f := fun t => if t = onlist then [t, addee] else [t])
      (hsplit ▸ h.nodup l) (if_pos rfl) fun t' hne => if_neg hne
    obtain ⟨m', hm, hrep⟩ := h.insertafter hsplit hv.2
    refine ⟨m', by rw [TlMem.step, hm]; rfl, ?_⟩
    rw [TlOp.apply, hsplit, hnew]
    exact hrep
  | insertbefore l addee onlist =>
    obtain ⟨ts₁, ts₂, hsplit⟩ := List.append_of_mem hv.1
    have hnew := flatMap_of_nodup (f := fun t => if t = onlist then [addee, t] else [t])
      (hsplit ▸ h.nodup l) (if_pos rfl) fun t' hne => if_neg hne
    obtain ⟨m', hm, hrep⟩ := h.insertbefore hsplit hv.2
    refine ⟨m', by rw [TlMem.step, hm]; rfl, ?_⟩
    rw [TlOp.apply, hsplit, hnew]
    exact hrep
  | remhead l =>
    cases hs : s l with
    | nil =>
      refine ⟨m, by rw [TlMem.step, h.remhead_nil hs, TlOp.apply, hs]; rfl, ?_⟩
      rw [TlOp.apply, hs, List.tail_nil, ← hs, Function.update_eq_self]
      exact h
    | cons t ts =>
      obtain ⟨m', hm, hrep⟩ := h.remhead_cons hs
      refine ⟨m', by rw [TlMem.step, hm, TlOp.apply, hs]; rfl, ?_⟩
      rw [TlOp.apply, hs]
      exact hrep
  | remtail l =>
    rcases List.eq_nil_or_concat' (s l) with hs | ⟨ts, t, hs⟩
    · refine ⟨m, by rw [TlMem.step, h.remtail_nil hs, TlOp.apply, hs]; rfl, ?_⟩
      rw [TlOp.apply, hs, List.dropLast_nil, ← hs, Function.update_eq_self]
      exact h
    · obtain ⟨m', hm, hrep⟩ := h.remtail_concat hs
      refine ⟨m', by rw [TlMem.step, hm, TlOp.apply, hs, List.getLast?_concat], ?_⟩
      rw [TlOp.apply, hs, List.dropLast_concat]
      exact hrep
  | remove l t =>
    obtain ⟨ts₁, ts₂, hs⟩ := List.append_of_mem hv
    have hnot : t ∉ ts₁ := fun hmem =>
      (List.nodup_append.mp (hs ▸ h.nodup l)).2.2 t hmem t List.mem_cons_self rfl
    obtain ⟨m', hm, hrep⟩ := h.remove hs
    refine ⟨m', by rw [TlMem.step, hm]; rfl, ?_⟩
    rw [TlOp.apply, hs, List.erase_append_right _ hnot, List.erase_cons_head]
    exact hrep

/-- **A sequence of valid operations.** -/
theorem steps {ops : List (TlOp L)} (hv : TlOp.ValidAll s ops) :
    ∃ m', m.steps ops = .ok ((TlOp.applyAll s ops).1, m') ∧ m'.Rep (TlOp.applyAll s ops).2 := by
  induction ops generalizing m s with
  | nil => exact ⟨m, rfl, h⟩
  | cons op ops ih =>
    obtain ⟨m₁, hm₁, h₁⟩ := h.step hv.1
    obtain ⟨m₂, hm₂, h₂⟩ := ih h₁ hv.2
    refine ⟨m₂, ?_, h₂⟩
    rw [TlMem.steps, hm₁]
    change (m₁.steps ops >>= _) = _
    rw [hm₂]
    rfl

/-! ## Iteration -/

omit [DecidableEq L] in
/-- The iteration from a node of the list to its end. -/
theorem forall_from {ts : List ThreadPtr} {k : ℕ} (pre : List (ListNode L))
    (hn : listNodes l (s l) = pre ++ n :: (ts.map .thread ++ [.tail l])) (hk : ts.length < k) :
    m.threadlistForall k n = .ok ts := by
  obtain ⟨k, rfl⟩ := Nat.exists_eq_add_one_of_ne_zero (Nat.ne_zero_of_lt hk)
  have hlink := h.linked l
  induction ts generalizing pre n k with
  | nil =>
    have hnext : m.tlnNext n = some (.tail l) :=
      Linked.next_eq pre [] (by rwa [hn] at hlink)
    simp only [threadlistForall, hnext, deref_bind, (h.self.2 l).2]
    rfl
  | cons t ts ih =>
    have hnext : m.tlnNext n = some (.thread t) := by
      rw [hn] at hlink
      exact hlink.next_eq _ _
    simp only [threadlistForall, hnext, deref_bind, h.self.1 t]
    obtain ⟨k, rfl⟩ := Nat.exists_eq_add_one_of_ne_zero
      (Nat.ne_zero_of_lt (Nat.lt_of_succ_lt_succ hk))
    rw [ih (pre ++ [n]) (by rw [hn]; simp) k (Nat.lt_of_succ_lt_succ hk)]
    rfl

omit [DecidableEq L] in
/-- The iteration from a node of the list back to its start. -/
theorem forallRev_from {ts : List ThreadPtr} {k : ℕ} (post : List (ListNode L))
    (hn : listNodes l (s l) = (.head l :: ts.map .thread) ++ n :: post) (hk : ts.length < k) :
    m.threadlistForallRev k n = .ok ts.reverse := by
  obtain ⟨k, rfl⟩ := Nat.exists_eq_add_one_of_ne_zero (Nat.ne_zero_of_lt hk)
  have hlink := h.linked l
  induction ts using List.reverseRecOn generalizing post n k with
  | nil =>
    have hprev : m.tlnPrev n = some (.head l) :=
      Linked.prev_eq [] post (by rwa [hn] at hlink)
    simp only [threadlistForallRev, hprev, deref_bind, (h.self.2 l).1]
    rfl
  | append_singleton ts t ih =>
    rw [List.length_append] at hk
    have hn' : listNodes l (s l) = (.head l :: ts.map .thread) ++ .thread t :: n :: post := by
      rw [hn]
      simp
    have hprev : m.tlnPrev n = some (.thread t) := by
      rw [hn'] at hlink
      exact hlink.prev_eq _ _
    simp only [threadlistForallRev, hprev, deref_bind, h.self.1 t]
    obtain ⟨k, rfl⟩ := Nat.exists_eq_add_one_of_ne_zero
      (Nat.ne_zero_of_lt (Nat.lt_of_succ_lt_succ hk))
    rw [ih _ hn' k (Nat.lt_of_succ_lt_succ hk), List.reverse_concat]
    rfl

end Rep

/-- Initialised lists are empty. -/
theorem rep_init (L : Type) : (init L).Rep fun _ => [] := by
  refine ⟨fun l => ?_, fun _ => rfl, fun _ => rfl, fun _ => List.nodup_nil, ?_, fun _ _ => ⟨rfl, rfl⟩,
    ⟨fun _ => rfl, fun _ => ⟨rfl, rfl⟩⟩, fun _ => rfl⟩
  · exact linked_cons_cons.mpr ⟨⟨rfl, rfl⟩, List.isChain_singleton _⟩
  · intro l l' t ht
    cases ht

end TlMem

section Refine

variable {L : Type} [DecidableEq L]

/-- **Thread lists are sequences.** Any run of valid operations on initialised lists ends, each one
returns what the operation on sequences returns, and afterwards, for every list, the count is the
length of the sequence and the iterations in the two directions visit its threads in order and in
opposite order; a thread on no list has no links. -/
theorem threadlist_refines {ops : List (TlOp L)} (hv : TlOp.ValidAll (fun _ => []) ops) :
    ∃ m, (TlMem.init L).steps ops = .ok ((TlOp.applyAll (fun _ => []) ops).1, m) ∧
      (∀ l, m.tlCount l = ((TlOp.applyAll (fun _ => []) ops).2 l).length ∧
        ∀ k, ((TlOp.applyAll (fun _ => []) ops).2 l).length < k →
          m.threadlistForall k (.head l) = .ok ((TlOp.applyAll (fun _ => []) ops).2 l) ∧
          m.threadlistForallRev k (.tail l) =
            .ok ((TlOp.applyAll (fun _ => []) ops).2 l).reverse) ∧
      ∀ t, (∀ l, t ∉ (TlOp.applyAll (fun _ => []) ops).2 l) →
        m.tlnNext (.thread t) = none ∧ m.tlnPrev (.thread t) = none := by
  obtain ⟨m, hm, hrep⟩ := (TlMem.rep_init L).steps hv
  refine ⟨m, hm, fun l => ⟨hrep.count l, fun k hk => ⟨?_, ?_⟩⟩, hrep.off⟩
  · exact hrep.forall_from [] rfl hk
  · exact hrep.forallRev_from [] rfl hk

/-- Threads for an example. -/
def fakethread (i : ℕ) (h : i < 8) : ThreadPtr where
  addr := 16 * i + 16
  pos := by omega
  lt := by
    unfold wordSize
    omega

/-- A thread goes from the end of one list to another one. -/
def tlExample : List (TlOp Bool) :=
  [.addhead false (fakethread 1 (by decide)),
    .insertafter false (fakethread 1 (by decide)) (fakethread 3 (by decide)),
    .insertbefore false (fakethread 2 (by decide)) (fakethread 3 (by decide)),
    .remtail false, .addtail true (fakethread 3 (by decide)),
    .remove false (fakethread 1 (by decide)), .remhead true, .remhead true]

theorem threadlist_refines_example :
    ∃ m, (TlMem.init Bool).steps tlExample = .ok ([none, none, none,
      some (fakethread 3 (by decide)), none, none, some (fakethread 3 (by decide)), none], m) ∧
      m.tlCount false = 1 ∧
      m.threadlistForall 2 (.head false) = .ok [fakethread 2 (by decide)] ∧ m.tlCount true = 0 := by
  have hv : TlOp.ValidAll (fun _ => []) tlExample := by
    simp [tlExample, TlOp.ValidAll, TlOp.Valid, TlOp.apply, fakethread]
  obtain ⟨m, hm, hl, -⟩ := threadlist_refines hv
  exact ⟨m, hm, (hl false).1, ((hl false).2 2 (by decide)).1, (hl true).1⟩

end Refine

end Os161
