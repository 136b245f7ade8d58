import Os161.Array.Preallocate

set_option autoImplicit false

/-!
# Arrays are lists

The other functions of `array.c` on the storage of a `PtrArray`, and the list they work on. An entry
of the list is unknown (`none`) until it is set, since `array_setsize` does not initialize what it
adds.

* `ArrayOp.exec`: the functions; `ArrayOp.apply`: what they do to the list.
* `Holds`: the array has the length and the known entries of the list.
* `exec_refines`: one call; **`array_refines_list`**: every sequence of calls, with `kmalloc` failing
  anywhere, as long as no more than `2 ^ 29` elements are asked for.
-/

namespace Os161

open Transition

namespace PtrArray

variable {α : Type}

/-- `a->v[index]`. -/
def load (a : PtrArray α) (index : ℕ) : Except ArrayStop α :=
  match a.v with
  | some b => if ptrSize * index + ptrSize ≤ b.bytes then .ok (b.cell index) else .error .outside
  | none => .error .outside

/-- `a->v[index] = val`. -/
def store (a : PtrArray α) (index : ℕ) (val : α) : Except ArrayStop (PtrArray α) :=
  match a.v with
  | some b =>
    if ptrSize * index + ptrSize ≤ b.bytes then
      .ok { a with v := some { b with cell := Function.update b.cell index val } }
    else .error .outside
  | none => .error .outside

/-- `memmove(a->v + index, a->v + index+1, n)`. -/
def moveDown (a : PtrArray α) (index n : ℕ) : Except ArrayStop (PtrArray α) :=
  match a.v with
  | some b =>
    if ptrSize * (index + 1) + n ≤ b.bytes then
      .ok { a with
        v := some { b with
          cell := fun i =>
            if index ≤ i ∧ ptrSize * (i - index) < n then b.cell (i + 1) else b.cell i } }
    else .error .outside
  | none => .error .outside

/-- `ARRAYASSERT`. -/
def arrayassert (p : Prop) [Decidable p] : Except ArrayStop Unit :=
  if p then .ok () else .error .assert

/-- `array_get`. -/
def arrayGet (a : PtrArray α) (index : ℕ) : Except ArrayStop α := do
  arrayassert (index < a.num)
  a.load index

/-- `array_set`. -/
def arraySet (a : PtrArray α) (index : ℕ) (val : α) : Except ArrayStop (PtrArray α) := do
  arrayassert (index < a.num)
  a.store index val

/-- `array_setsize`. -/
def arraySetsize (fuel : ℕ) (kmalloc : Option (ℕ → α)) (a : PtrArray α) (num : ℕ) :
    Except ArrayStop (ArrayResult × PtrArray α) := do
  match ← arrayPreallocate fuel kmalloc a num with
  | (.ENOMEM, a) => return (.ENOMEM, a)
  | (.ok, a) => return (.ok, { a with num := num })

/-- `array_add`, with the index it stores on success. -/
def arrayAdd (fuel : ℕ) (kmalloc : Option (ℕ → α)) (a : PtrArray α) (val : α) :
    Except ArrayStop (Option ℕ × PtrArray α) := do
  let index := a.num
  match ← arraySetsize fuel kmalloc a (wadd index 1) with
  | (.ENOMEM, a) => return (none, a)
  | (.ok, a) => return (some index, ← a.store index val)

/-- `array_remove`. -/
def arrayRemove (a : PtrArray α) (index : ℕ) : Except ArrayStop (PtrArray α) := do
  arrayassert (a.num ≤ a.max)
  arrayassert (index < a.num)
  let a ← a.moveDown index (sizeOfPtrs (wsub a.num (wadd index 1)))
  return { a with num := wsub a.num 1 }

end PtrArray

/-- The calls; `kmalloc` is what it returns where the call reaches it. -/
inductive ArrayOp (α : Type)
  | add (val : α) (kmalloc : Option (ℕ → α))
  | setsize (num : ℕ) (kmalloc : Option (ℕ → α))
  | set (index : ℕ) (val : α)
  | get (index : ℕ)
  | remove (index : ℕ)

/-- What a call returns. -/
inductive ArrayRet (α : Type)
  | ENOMEM
  | done
  | index (i : ℕ)
  | value (val : α)

namespace ArrayOp

open PtrArray

variable {α : Type}

/-- A call. -/
def exec (fuel : ℕ) (a : PtrArray α) : ArrayOp α → Except ArrayStop (ArrayRet α × PtrArray α)
  | .add val kmalloc => do
    match ← arrayAdd fuel kmalloc a val with
    | (some i, a) => return (.index i, a)
    | (none, a) => return (.ENOMEM, a)
  | .setsize num kmalloc => do
    match ← arraySetsize fuel kmalloc a num with
    | (.ok, a) => return (.done, a)
    | (.ENOMEM, a) => return (.ENOMEM, a)
  | .set index val => do return (.done, ← arraySet a index val)
  | .get index => do return (.value (← arrayGet a index), a)
  | .remove index => do return (.done, ← arrayRemove a index)

/-- **The list after a call** that returned `r`. -/
def apply (l : List (Option α)) (op : ArrayOp α) (r : ArrayRet α) : List (Option α) :=
  match r, op with
  | .ENOMEM, _ => l
  | _, .add val _ => l ++ [some val]
  | _, .setsize num _ => l.take num ++ List.replicate (num - l.length) none
  | _, .set index val => l.set index (some val)
  | _, .get _ => l
  | _, .remove index => l.eraseIdx index

/-- **What a call may return** on the list. -/
def Returns (l : List (Option α)) : ArrayOp α → ArrayRet α → Prop
  | .add _ kmalloc, r => r = .index l.length ∨ r = .ENOMEM ∧ kmalloc = none
  | .setsize _ kmalloc, r => r = .done ∨ r = .ENOMEM ∧ kmalloc = none
  | .get index, r => ∃ val, r = .value val ∧ ∀ p, l[index]? = some (some p) → val = p
  | .set .., r | .remove _, r => r = .done

/-- The call is within the bounds of the array and asks for at most `limit` elements. -/
def InBounds (limit : ℕ) (a : PtrArray α) : ArrayOp α → Prop
  | .add .. => a.num < limit
  | .setsize num _ => num ≤ limit
  | .set index _ | .get index | .remove index => index < a.num

instance (limit : ℕ) (a : PtrArray α) : DecidablePred (InBounds limit a)
  | .add .. => inferInstanceAs (Decidable (a.num < limit))
  | .setsize num _ => inferInstanceAs (Decidable (num ≤ limit))
  | .set index _ | .get index | .remove index => inferInstanceAs (Decidable (index < a.num))

/-- A call on the array beside the list. -/
def step (fuel : ℕ) (s : PtrArray α × List (Option α)) (op : ArrayOp α) :
    Except ArrayStop (PtrArray α × List (Option α)) := do
  let (r, a) ← op.exec fuel s.1
  return (a, op.apply s.2 r)

end ArrayOp

namespace PtrArray

variable {α : Type} {a a' : PtrArray α} {l : List (Option α)} {fuel num index : ℕ} {val : α}
  {b : PtrBlock α}

/-- **The array holds the list**: its length and its known entries. -/
structure Holds (a : PtrArray α) (l : List (Option α)) : Prop where
  wf : a.Wf
  length : a.num = l.length
  cell : ∀ i p, l[i]? = some (some p) → ∃ b, a.v = some b ∧ b.cell i = p

theorem holds_init (α : Type) : Holds (arrayInit α) [] := ⟨wf_init α, rfl, nofun⟩

/-- There is storage where there are elements. -/
theorem Wf.exists_block (h : a.Wf) (hlt : index < a.num) :
    ∃ b, a.v = some b ∧ ptrSize * a.max = b.bytes := by
  have hnum := h.num_le
  have hbytes := h.bytes_eq
  cases hv : a.v with
  | none =>
    unfold bytes ptrSize at hbytes
    rw [hv] at hbytes
    simp only at hbytes
    omega
  | some b =>
    refine ⟨b, rfl, ?_⟩
    unfold bytes at hbytes
    rw [hv] at hbytes
    exact hbytes.symm

/-- An element lies in the storage. -/
theorem fits (hlt : index < a.max) (hb : ptrSize * a.max = b.bytes) :
    ptrSize * index + ptrSize ≤ b.bytes := by
  rw [← hb]
  exact Nat.mul_le_mul_left ptrSize hlt

theorem load_of_lt (h : a.Wf) (hv : a.v = some b) (hlt : index < a.num) :
    a.load index = .ok (b.cell index) := by
  obtain ⟨b', hb', hb⟩ := h.exists_block hlt
  obtain rfl := Option.some.inj (hb'.symm.trans hv)
  unfold load
  rw [hv]
  exact if_pos (fits (Nat.lt_of_lt_of_le hlt h.num_le) hb)

/-- **`array_get`** returns the known entry. -/
theorem Holds.arrayGet (h : Holds a l) (hlt : index < a.num) :
    ∃ val, arrayGet a index = .ok val ∧ ∀ p, l[index]? = some (some p) → val = p := by
  obtain ⟨b, hv, -⟩ := h.wf.exists_block hlt
  refine ⟨b.cell index, ?_, fun p hp => ?_⟩
  · unfold PtrArray.arrayGet arrayassert
    rw [if_pos hlt]
    exact load_of_lt h.wf hv hlt
  · obtain ⟨b', hb', hc⟩ := h.cell index p hp
    obtain rfl := Option.some.inj (hb'.symm.trans hv)
    exact hc

/-- An array that is stored to. -/
theorem Holds.store (h : Holds a l) (hlt : index < a.num) (val : α) :
    ∃ a', a.store index val = .ok a' ∧ Holds a' (l.set index (some val)) := by
  obtain ⟨b, hv, hb⟩ := h.wf.exists_block hlt
  refine ⟨{ a with v := some { b with cell := Function.update b.cell index val } }, ?_,
    ⟨⟨h.wf.num_le, ?_, ?_⟩, ?_, fun i p hp => ⟨_, rfl, ?_⟩⟩⟩
  · unfold PtrArray.store
    rw [hv]
    exact if_pos (fits (Nat.lt_of_lt_of_le hlt h.wf.num_le) hb)
  · exact hb.symm
  · have hbytes := h.wf.bytes_lt
    rwa [h.wf.bytes_eq, hb] at hbytes
  · rw [List.length_set]
    exact h.length
  · rw [List.getElem?_set] at hp
    split_ifs at hp with hi hl
    · subst hi
      cases hp
      exact Function.update_self ..
    · obtain ⟨b', hb', hc⟩ := h.cell i p hp
      obtain rfl := Option.some.inj (hb'.symm.trans hv)
      exact (Function.update_of_ne (Ne.symm hi) _ _).trans hc

/-- **`array_set`** sets the entry. -/
theorem Holds.arraySet (h : Holds a l) (hlt : index < a.num) (val : α) :
    ∃ a', arraySet a index val = .ok a' ∧ Holds a' (l.set index (some val)) := by
  obtain ⟨a', ha', hh⟩ := h.store hlt val
  refine ⟨a', ?_, hh⟩
  unfold PtrArray.arraySet arrayassert
  rw [if_pos hlt]
  exact ha'

/-- **`array_remove`** takes the entry out, and the entries behind it move down. -/
theorem Holds.arrayRemove (h : Holds a l) (hlt : index < a.num) :
    ∃ a', arrayRemove a index = .ok a' ∧ Holds a' (l.eraseIdx index) := by
  obtain ⟨b, hv, hb⟩ := h.wf.exists_block hlt
  have hle := h.wf.num_le
  have hmax := h.wf.max_lt
  have hmove : sizeOfPtrs (wsub a.num (wadd index 1)) = ptrSize * (a.num - (index + 1)) := by
    rw [wadd_of_lt (by unfold wordSize; omega), wsub_of_le (by omega) (by unfold wordSize; omega),
      sizeOfPtrs_of_lt (by omega)]
  refine ⟨⟨some ⟨b.bytes, fun i =>
      if index ≤ i ∧ ptrSize * (i - index) < ptrSize * (a.num - (index + 1)) then b.cell (i + 1)
      else b.cell i⟩, a.num - 1, a.max⟩, ?_, ⟨⟨?_, ?_, ?_⟩, ?_, fun i p hp => ⟨_, rfl, ?_⟩⟩⟩
  · have hdec : wsub a.num 1 = a.num - 1 := wsub_of_le (by omega) (by unfold wordSize; omega)
    unfold PtrArray.arrayRemove arrayassert
    rw [if_pos hle, if_pos hlt, hmove, ← hdec]
    change (a.moveDown _ _ >>= _) = _
    unfold moveDown
    rw [hv]
    dsimp only
    rw [if_pos (by unfold ptrSize at *; omega)]
    rfl
  · exact Nat.le_trans (Nat.sub_le _ _) hle
  · exact hb.symm
  · have hbytes := h.wf.bytes_lt
    rwa [h.wf.bytes_eq, hb] at hbytes
  · rw [List.length_eraseIdx, if_pos (h.length ▸ hlt), ← h.length]
  · rw [List.getElem?_eraseIdx] at hp
    split_ifs at hp with hbefore
    · obtain ⟨b', hb', hc⟩ := h.cell i p hp
      obtain rfl := Option.some.inj (hb'.symm.trans hv)
      exact (if_neg (by omega)).trans hc
    · obtain ⟨b', hb', hc⟩ := h.cell (i + 1) p hp
      obtain rfl := Option.some.inj (hb'.symm.trans hv)
      have hi : i + 1 < l.length := (List.getElem?_eq_some_iff.mp hp).1
      rw [← h.length] at hi
      refine (if_pos ⟨by omega, ?_⟩).trans hc
      exact Nat.mul_lt_mul_of_pos_left (by omega) (by decide)

/-- Storage that was grown holds the same list. -/
theorem Holds.grown (h : Holds a l) (hg : Grown a a' num) : Holds a' l := by
  refine ⟨hg.wf, hg.num_eq.trans h.length, fun i p hp => ?_⟩
  obtain ⟨b, hv, hc⟩ := h.cell i p hp
  obtain ⟨b', hv', hkeep⟩ := hg.keep b hv
  have hi : i < a.num := h.length ▸ (List.getElem?_eq_some_iff.mp hp).1
  exact ⟨b', hv', (hkeep i hi).trans hc⟩

/-- **`array_setsize`** cuts the list off, or adds unknown entries. -/
theorem Holds.arraySetsize (h : Holds a l) (kmalloc : Option (ℕ → α)) (hnum : num ≤ 2 ^ 29)
    (hfuel : 32 ≤ fuel) :
    (∃ a', arraySetsize fuel kmalloc a num = .ok (.ok, a') ∧
      Holds a' (l.take num ++ List.replicate (num - l.length) none)) ∨
    arraySetsize fuel kmalloc a num = .ok (.ENOMEM, a) ∧ kmalloc = none := by
  obtain ⟨r, a', hcall, hok, hfail⟩ :=
    arrayPreallocate_spec kmalloc h.wf fun hlt => growTo_of_le hnum hlt hfuel
  unfold PtrArray.arraySetsize
  rw [hcall]
  cases r with
  | ENOMEM =>
    obtain ⟨rfl, hk⟩ := hfail rfl
    exact .inr ⟨rfl, hk⟩
  | ok =>
    have hg := hok rfl
    have hh := h.grown hg
    refine .inl ⟨{ a' with num := num }, rfl, ⟨⟨hg.le_max, hg.wf.bytes_eq, hg.wf.bytes_lt⟩, ?_,
      fun i p hp => ?_⟩⟩
    · rw [List.length_append, List.length_take, List.length_replicate]
      change num = _
      omega
    · rw [List.getElem?_append, List.length_take] at hp
      split_ifs at hp with hi
      · rw [List.getElem?_take_of_lt (by omega)] at hp
        exact hh.cell i p hp
      · rw [List.getElem?_replicate] at hp
        split_ifs at hp
        cases hp

/-- **`array_add`** appends the entry. -/
theorem Holds.arrayAdd (h : Holds a l) (kmalloc : Option (ℕ → α)) (hnum : a.num < 2 ^ 29)
    (hfuel : 32 ≤ fuel) (val : α) :
    (∃ a', arrayAdd fuel kmalloc a val = .ok (some l.length, a') ∧ Holds a' (l ++ [some val])) ∨
    arrayAdd fuel kmalloc a val = .ok (none, a) ∧ kmalloc = none := by
  have hadd : wadd a.num 1 = a.num + 1 := wadd_of_lt (by unfold wordSize; omega)
  unfold PtrArray.arrayAdd
  dsimp only
  rw [hadd]
  rcases h.arraySetsize kmalloc hnum hfuel with ⟨a₁, hset, hh⟩ | ⟨hset, hk⟩
  · have hlist : l.take (a.num + 1) ++ List.replicate (a.num + 1 - l.length) (none : Option α) =
        l ++ [none] := by
      rw [h.length, List.take_of_length_le (Nat.le_succ _), Nat.add_sub_cancel_left]
      rfl
    rw [hlist] at hh
    have hlt : a.num < a₁.num := by
      rw [hh.length, List.length_append, h.length]
      exact Nat.lt_succ_self _
    obtain ⟨a₂, hstore, hh₂⟩ := hh.store hlt val
    refine .inl ⟨a₂, ?_, ?_⟩
    · rw [hset]
      change (a₁.store a.num val >>= _) = _
      rw [hstore, ← h.length]
      rfl
    · rw [h.length, List.set_append_right _ _ (Nat.le_refl _), Nat.sub_self] at hh₂
      exact hh₂
  · rw [hset]
    exact .inr ⟨rfl, hk⟩

end PtrArray

namespace ArrayOp

open PtrArray

variable {α : Type} {a : PtrArray α} {l : List (Option α)} {fuel : ℕ} {op : ArrayOp α}
  {ops : List (ArrayOp α)}

/-- **One call**: it returns what it may on the list, and afterwards the array holds the new list. -/
theorem exec_refines (h : Holds a l) (hb : op.InBounds (2 ^ 29) a) (hfuel : 32 ≤ fuel) :
    ∃ r a', op.exec fuel a = .ok (r, a') ∧ op.Returns l r ∧ Holds a' (op.apply l r) ∧
      (r = .ENOMEM → a' = a) := by
  cases op with
  | add val kmalloc =>
    rcases h.arrayAdd kmalloc hb hfuel val with ⟨a', hcall, hh⟩ | ⟨hcall, hk⟩
    · refine ⟨.index l.length, a', ?_, .inl rfl, hh, nofun⟩
      rw [exec, hcall]
      rfl
    · refine ⟨.ENOMEM, a, ?_, .inr ⟨rfl, hk⟩, h, fun _ => rfl⟩
      rw [exec, hcall]
      rfl
  | setsize num kmalloc =>
    rcases h.arraySetsize kmalloc hb hfuel with ⟨a', hcall, hh⟩ | ⟨hcall, hk⟩
    · refine ⟨.done, a', ?_, .inl rfl, hh, nofun⟩
      rw [exec, hcall]
      rfl
    · refine ⟨.ENOMEM, a, ?_, .inr ⟨rfl, hk⟩, h, fun _ => rfl⟩
      rw [exec, hcall]
      rfl
  | set index val =>
    obtain ⟨a', hcall, hh⟩ := h.arraySet hb val
    refine ⟨.done, a', ?_, rfl, hh, nofun⟩
    rw [exec, hcall]
    rfl
  | get index =>
    obtain ⟨val, hcall, hval⟩ := h.arrayGet hb
    refine ⟨.value val, a, ?_, ⟨val, rfl, hval⟩, h, nofun⟩
    rw [exec, hcall]
    rfl
  | remove index =>
    obtain ⟨a', hcall, hh⟩ := h.arrayRemove hb
    refine ⟨.done, a', ?_, rfl, hh, nofun⟩
    rw [exec, hcall]
    rfl

theorem step_holds (h : Holds a l) (hb : op.InBounds (2 ^ 29) a) (hfuel : 32 ≤ fuel) :
    ∃ s, op.step fuel (a, l) = .ok s ∧ Holds s.1 s.2 := by
  obtain ⟨r, a', hcall, -, hh, -⟩ := exec_refines h hb hfuel
  refine ⟨(a', op.apply l r), ?_, hh⟩
  rw [step, hcall]
  rfl

theorem run_holds (h : Holds a l) (hfuel : 32 ≤ fuel)
    (hops : Along (step fuel) (fun s op => op.InBounds (2 ^ 29) s.1) (a, l) ops) :
    ∃ s, run (step fuel) (a, l) ops = .ok s ∧ Holds s.1 s.2 := by
  induction ops generalizing a l with
  | nil => exact ⟨(a, l), rfl, h⟩
  | cons op ops ih =>
    obtain ⟨s, hs, hh⟩ := step_holds h hops.1 hfuel
    obtain ⟨s', hs', hh'⟩ := ih hh (hops.2 s hs)
    refine ⟨s', ?_, hh'⟩
    rw [run_cons, hs]
    exact hs'

/-- **The array is the list** `l` so far, and every call on it does what it does to the list. -/
structure Sound (fuel : ℕ) (a : PtrArray α) (l : List (Option α)) : Prop where
  length : a.num = l.length
  contents : ∀ i p, l[i]? = some (some p) → arrayGet a i = .ok p
  num_le : a.num ≤ a.max
  call : ∀ op : ArrayOp α, op.InBounds (2 ^ 29) a → ∃ r a', op.exec fuel a = .ok (r, a') ∧
    op.Returns l r ∧ (r = .ENOMEM → a' = a ∧ op.apply l r = l)

/-- **Arrays refine lists**: any sequence of calls within the bounds that asks for at most `2 ^ 29`
elements returns, with `kmalloc` failing at any point, and leaves the array as the list. -/
theorem array_refines_list (hfuel : 32 ≤ fuel)
    (hops : Along (step fuel) (fun s op => op.InBounds (2 ^ 29) s.1)
      (arrayInit α, []) ops) :
    ∃ s, run (step fuel) (arrayInit α, []) ops = .ok s ∧ Sound fuel s.1 s.2 := by
  obtain ⟨s, hs, h⟩ := run_holds (holds_init α) hfuel hops
  refine ⟨s, hs, ⟨h.length, fun i p hp => ?_, h.wf.num_le, fun op hb => ?_⟩⟩
  · have hi : i < s.1.num := h.length ▸ (List.getElem?_eq_some_iff.mp hp).1
    obtain ⟨val, hget, hval⟩ := h.arrayGet hi
    rw [hget, hval p hp]
  · obtain ⟨r, a', hcall, hr, -, hfail⟩ := exec_refines h hb hfuel
    refine ⟨r, a', hcall, hr, fun e => ⟨hfail e, ?_⟩⟩
    rw [e, apply]

/-- An array of one element more than `2 ^ 29`, and its last element. -/
def oversize : List (ArrayOp ℕ) := [.setsize (2 ^ 29 + 1) (some fun _ => 0), .get (2 ^ 29)]

/-- The storage has no bytes, and the access to the element is outside. -/
theorem array_refines_list_wraps :
    ¬ ∀ ops : List (ArrayOp ℕ),
      Along (step 32) (fun s op => op.InBounds (2 ^ 30 - 1) s.1) (arrayInit ℕ, []) ops →
        ∃ s, run (step 32) (arrayInit ℕ, []) ops = .ok s := by
  intro hall
  have halong : Along (step 32) (fun s op => op.InBounds (2 ^ 30 - 1) s.1) (arrayInit ℕ, [])
      oversize := by
    refine ⟨by decide, fun t ht => ⟨?_, fun _ _ => trivial⟩⟩
    have hnum : (step 32 (arrayInit ℕ, [])
        (.setsize (2 ^ 29 + 1) (some fun _ => 0))).toOption.map (fun s => s.1.num) =
          some (2 ^ 29 + 1) := rfl
    rw [ht] at hnum
    have hnum : t.1.num = 2 ^ 29 + 1 := Option.some.inj hnum
    change 2 ^ 29 < t.1.num
    omega
  obtain ⟨s, hs⟩ := hall oversize halong
  have hout : run (step 32) (arrayInit ℕ, []) oversize = .error .outside := rfl
  cases hout.symm.trans hs

/-- Two elements are added in the first block, growth fails, and the first element is removed. -/
theorem array_refines_list_fails :
    ∃ s, run (step 32) (arrayInit ℕ, [])
        [.add 7 (some fun _ => 0), .add 8 none, .setsize 9 none, .remove 0] = .ok s ∧
      s.2 = [some 8] ∧ Sound 32 s.1 s.2 := by
  have halong : Along (step 32) (fun s op => op.InBounds (2 ^ 29) s.1) (arrayInit ℕ, [])
      [.add 7 (some fun _ => 0), .add 8 none, .setsize 9 none, .remove 0] := by decide
  obtain ⟨s, hs, hsound⟩ := array_refines_list (Nat.le_refl 32) halong
  have hlist : (run (step 32) (arrayInit ℕ, []) [.add 7 (some fun _ => 0), .add 8 none,
      .setsize 9 none, .remove 0]).toOption.map Prod.snd = some [some 8] := rfl
  rw [hs] at hlist
  exact ⟨s, hs, Option.some.inj hlist, hsound⟩

end ArrayOp

end Os161
