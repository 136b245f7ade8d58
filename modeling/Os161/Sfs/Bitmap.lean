import Os161.Lib.PackedBits
import Os161.Machine.Stop
import Os161.Machine.Word
import Os161.Sfs.Fs

set_option autoImplicit false

/-!
# Bitmaps

`kern/lib/bitmap.c`: a fixed-size array of bits in bytes. The bytes are those from `b->v` on, so
that a byte past the block is there too.

* `bitmapCreate`, `Bitmap.alloc`, `Bitmap.mark`, `Bitmap.unmark`, `Bitmap.isset`: the functions.
* `BitmapSpec.Step`: what a bitmap is for, a finite set of numbers below `nbits`.
* **`Bitmap.refines_set`**: every run of the operations is a run of the set.
* `Bitmap.alloc_freemap`: the allocation is that of the volume model.
-/

namespace Os161

/-- `BITS_PER_WORD`. -/
def bitsPerWord : ℕ := 8

/-- `bzero(v, len)`. -/
def bzero (v : ℕ → BitVec 8) (len : ℕ) : ℕ → BitVec 8 :=
  Loop.forRange 0 len (fun i v => Function.update v i 0#8) v

/-- `struct bitmap`. -/
structure Bitmap where
  nbits : ℕ
  v : ℕ → BitVec 8

/-- The loop of `bitmap_create` over the leftover bits of byte `ix`. -/
def markLeftover (v : ℕ → BitVec 8) (ix overbits : ℕ) : ℕ → BitVec 8 :=
  Loop.forRange overbits (bitsPerWord - overbits)
    (fun j v => Function.update v ix (v ix ||| PackedBits.mask 8 j)) v

/-- `bitmap_create`; `kmallocB` and `kmallocV` are the results of its two calls of `kmalloc`, the
second one with the bytes found there. -/
def bitmapCreate (nbits : ℕ) (kmallocB : Bool) (kmallocV : Option (ℕ → BitVec 8)) :
    Except Stop (Option Bitmap) :=
  let words := divroundup nbits bitsPerWord
  if kmallocB = false then .ok none
  else match kmallocV with
    | none => .ok none
    | some mem =>
      let v := bzero mem words
      if nbits / bitsPerWord < words then do
        let ix := wsub words 1
        let overbits := wsub nbits (ix * bitsPerWord % wordSize)
        kassert (nbits / bitsPerWord = wsub words 1)
        kassert (0 < overbits ∧ overbits < bitsPerWord)
        return some ⟨nbits, markLeftover v ix overbits⟩
      else .ok (some ⟨nbits, v⟩)

namespace Bitmap

/-- What `bitmap_alloc` does at the clear bit it found. -/
def allocBit (b : Bitmap) (ix offset : ℕ) : Except Stop (Except FsErr ℕ × Bitmap) := do
  let index := wadd (ix * bitsPerWord % wordSize) offset
  kassert (index < b.nbits)
  return (.ok index,
    { b with v := Function.update b.v ix (b.v ix ||| PackedBits.mask 8 offset) })

/-- The loops of `bitmap_alloc`. -/
def allocLoop (b : Bitmap) (maxix : ℕ) : Except Stop (Except FsErr ℕ × Bitmap) :=
  match Loop.firstIdx (fun ix => b.v ix != BitVec.allOnes 8) 0 maxix with
  | none => .ok (.error .enospc, b)
  | some ix =>
    match Loop.firstIdx (fun offset => b.v ix &&& PackedBits.mask 8 offset == 0#8) 0
        bitsPerWord with
    | none => .error (.panic .kassert)
    | some offset => b.allocBit ix offset

/-- `bitmap_alloc`. -/
def alloc (b : Bitmap) : Except Stop (Except FsErr ℕ × Bitmap) :=
  b.allocLoop (divroundup b.nbits bitsPerWord)

/-- `bitmap_translate`. -/
def translate (bitno : ℕ) : ℕ × BitVec 8 :=
  (bitno / bitsPerWord, PackedBits.mask 8 (bitno % bitsPerWord))

/-- `bitmap_mark`. -/
def mark (b : Bitmap) (index : ℕ) : Except Stop Bitmap := do
  kassert (index < b.nbits)
  let t := translate index
  kassert (b.v t.1 &&& t.2 = 0)
  return { b with v := Function.update b.v t.1 (b.v t.1 ||| t.2) }

/-- `bitmap_unmark`. -/
def unmark (b : Bitmap) (index : ℕ) : Except Stop Bitmap := do
  kassert (index < b.nbits)
  let t := translate index
  kassert (b.v t.1 &&& t.2 ≠ 0)
  return { b with v := Function.update b.v t.1 (b.v t.1 &&& ~~~t.2) }

/-- `bitmap_isset`: not zero when the bit is set. -/
def isset (b : Bitmap) (index : ℕ) : BitVec 8 :=
  let t := translate index
  b.v t.1 &&& t.2

end Bitmap

/-- A call on a bitmap. -/
inductive BitmapOp
  | alloc
  | mark (index : ℕ)
  | unmark (index : ℕ)
  | isset (index : ℕ)
  deriving DecidableEq, Repr

/-- What a call returns. -/
inductive BitmapRet
  | index (r : Except FsErr ℕ)
  | done
  | bit (r : BitVec 8)

namespace Bitmap

/-- One call. -/
def call (b : Bitmap) : BitmapOp → Except Stop (BitmapRet × Bitmap)
  | .alloc => b.alloc.map fun r => (.index r.1, r.2)
  | .mark index => (b.mark index).map fun b => (.done, b)
  | .unmark index => (b.unmark index).map fun b => (.done, b)
  | .isset index => .ok (.bit (b.isset index), b)

/-- The calls of a list, with what they return. -/
def run (b : Bitmap) : List BitmapOp → Except Stop (List BitmapRet × Bitmap)
  | [] => .ok ([], b)
  | op :: ops => do
    let r ← b.call op
    let rs ← r.2.run ops
    return (r.1 :: rs.1, rs.2)

/-- The set a bitmap stands for. -/
def members (b : Bitmap) : Finset ℕ := PackedBits.members b.v b.nbits

end Bitmap

/-! ## The set -/

namespace BitmapSpec

/-- **The operations of a set of numbers below `nbits`**: an allocation adds the lowest number that
is not there and fails when there is none; a number is marked when it is not there and unmarked when
it is; a test is not zero for a member. -/
inductive Step (nbits : ℕ) : Finset ℕ → BitmapOp → BitmapRet → Finset ℕ → Prop
  | alloc {s : Finset ℕ} {i : ℕ} (hi : i < nbits) (hnew : i ∉ s) (hlow : ∀ j < i, j ∈ s) :
      Step nbits s .alloc (.index (.ok i)) (insert i s)
  | full {s : Finset ℕ} (hall : ∀ i < nbits, i ∈ s) :
      Step nbits s .alloc (.index (.error .enospc)) s
  | mark {s : Finset ℕ} {i : ℕ} (hi : i < nbits) (hnew : i ∉ s) :
      Step nbits s (.mark i) .done (insert i s)
  | unmark {s : Finset ℕ} {i : ℕ} (hi : i < nbits) (hmem : i ∈ s) :
      Step nbits s (.unmark i) .done (s.erase i)
  | isset {s : Finset ℕ} {i : ℕ} {r : BitVec 8} (hi : i < nbits) (hr : r ≠ 0 ↔ i ∈ s) :
      Step nbits s (.isset i) (.bit r) s

/-- A run of the set. -/
inductive Run (nbits : ℕ) : Finset ℕ → List BitmapOp → List BitmapRet → Finset ℕ → Prop
  | nil {s : Finset ℕ} : Run nbits s [] [] s
  | cons {s t u : Finset ℕ} {op : BitmapOp} {ops : List BitmapOp} {r : BitmapRet}
      {rs : List BitmapRet} (h : Step nbits s op r t) (hs : Run nbits t ops rs u) :
      Run nbits s (op :: ops) (r :: rs) u

/-- What the caller of an operation sees to: indexes below `nbits`, `bitmap_mark` for clear bits and
`bitmap_unmark` for set ones. -/
def Pre (nbits : ℕ) (s : Finset ℕ) : BitmapOp → Prop
  | .alloc => True
  | .mark i => i < nbits ∧ i ∉ s
  | .unmark i => i < nbits ∧ i ∈ s
  | .isset i => i < nbits

/-- The calls of the list are proper ones, whatever the earlier ones did. -/
def Legal (nbits : ℕ) : Finset ℕ → List BitmapOp → Prop
  | _, [] => True
  | s, op :: ops => Pre nbits s op ∧ ∀ r t, Step nbits s op r t → Legal nbits t ops

end BitmapSpec

/-! ## Creation -/

theorem divroundup_eq {n : ℕ} (h₀ : 1 ≤ n) (h : n ≤ 2 ^ 32 - 8) :
    divroundup n bitsPerWord = (n + 7) / 8 := by
  unfold divroundup wsub wadd wordSize bitsPerWord
  omega

theorem bzero_apply {v : ℕ → BitVec 8} {len i : ℕ} :
    bzero v len i = if i < len then 0#8 else v i := by
  unfold bzero
  rw [Loop.forRange_update (fun _ _ => 0#8)]
  simp

theorem markLeftover_of_ne {v : ℕ → BitVec 8} {ix overbits i : ℕ} (h : i ≠ ix) :
    markLeftover v ix overbits i = v i :=
  Loop.forRange_inv _ (fun _ v' => v' i = v i) _ _ v rfl fun _ _ _ _ h' =>
    (Function.update_of_ne h _ _).trans h'

/-- The leftover bits are set, the others stay. -/
theorem getLsbD_markLeftover {v : ℕ → BitVec 8} {ix overbits o : ℕ} (ho : o < 8)
    (hover : overbits ≤ 8) : (markLeftover v ix overbits ix).getLsbD o =
      (decide (overbits ≤ o) || (v ix).getLsbD o) := by
  have := Loop.forRange_inv
    (fun j v => Function.update v ix (v ix ||| PackedBits.mask 8 j))
    (fun m v' => (v' ix).getLsbD o = (decide (overbits ≤ o ∧ o < m) || (v ix).getLsbD o))
    (bitsPerWord - overbits) overbits v (by simp) fun m v' hlo hhi hv' => by
      have hm : m < 8 := by unfold bitsPerWord at hhi; omega
      rw [Function.update_self, BitVec.getLsbD_or, hv', PackedBits.getLsbD_mask hm,
        Bool.or_right_comm, ← Bool.decide_or]
      congr 2
      apply propext
      omega
  rw [markLeftover, this]
  congr 2
  unfold bitsPerWord
  apply propext
  omega

namespace Bitmap

/-- The padding of the last byte is set. -/
structure Wf (b : Bitmap) : Prop where
  pos : 1 ≤ b.nbits
  le : b.nbits ≤ 2 ^ 32 - 8
  padding : ∀ i, b.nbits ≤ i → i < (b.nbits + 7) / 8 * 8 → PackedBits.mem b.v i = true

end Bitmap

/-- The bytes of a new bitmap: the padding is set and nothing else, and the bytes past the block are
as they were. -/
theorem bitmapCreate_bytes {nbits : ℕ} (h₀ : 1 ≤ nbits) (h : nbits ≤ 2 ^ 32 - 8)
    (mem : ℕ → BitVec 8) : ∃ v, bitmapCreate nbits true (some mem) = .ok (some ⟨nbits, v⟩) ∧
      (∀ i < (nbits + 7) / 8 * 8, PackedBits.mem v i = decide (nbits ≤ i)) ∧
      ∀ ix, (nbits + 7) / 8 ≤ ix → v ix = mem ix := by
  unfold bitmapCreate
  simp only [divroundup_eq h₀ h, Bool.true_eq_false, if_false]
  by_cases hover : nbits / bitsPerWord < (nbits + 7) / 8
  · rw [if_pos hover]
    have hix : wsub ((nbits + 7) / 8) 1 = (nbits + 7) / 8 - 1 :=
      wsub_of_le (by omega) (by unfold wordSize; omega)
    have hmod : ((nbits + 7) / 8 - 1) * bitsPerWord % wordSize = ((nbits + 7) / 8 - 1) * 8 :=
      Nat.mod_eq_of_lt (by unfold wordSize bitsPerWord; omega)
    have hbits : wsub nbits (((nbits + 7) / 8 - 1) * 8) = nbits - ((nbits + 7) / 8 - 1) * 8 :=
      wsub_of_le (by omega) (by unfold wordSize; omega)
    unfold bitsPerWord at hover
    rw [hix, hmod, hbits, kassert_bind (by unfold bitsPerWord; omega),
      kassert_bind (by unfold bitsPerWord; omega)]
    refine ⟨_, rfl, fun i hi => ?_, fun ix hix => ?_⟩
    · rw [PackedBits.mem]
      by_cases hc : i / 8 = (nbits + 7) / 8 - 1
      · rw [hc, getLsbD_markLeftover (by omega) (by omega), bzero_apply, if_pos (by omega),
          BitVec.getLsbD_zero, Bool.or_false, decide_eq_decide]
        omega
      · rw [markLeftover_of_ne hc, bzero_apply, if_pos (by omega), BitVec.getLsbD_zero,
          decide_eq_false (by omega)]
    · rw [markLeftover_of_ne (by omega), bzero_apply, if_neg (by omega)]
  · rw [if_neg hover]
    unfold bitsPerWord at hover
    refine ⟨_, rfl, fun i hi => ?_, fun ix hix => ?_⟩
    · rw [PackedBits.mem, bzero_apply, if_pos (by omega), BitVec.getLsbD_zero,
        decide_eq_false (by omega)]
    · rw [bzero_apply, if_neg (by omega)]

/-- **A new bitmap** is empty, and only its own bytes are written. -/
theorem bitmapCreate_some {nbits : ℕ} (h₀ : 1 ≤ nbits) (h : nbits ≤ 2 ^ 32 - 8)
    (mem : ℕ → BitVec 8) : ∃ b, bitmapCreate nbits true (some mem) = .ok (some b) ∧
      b.nbits = nbits ∧ b.Wf ∧ b.members = ∅ ∧ ∀ ix, (nbits + 7) / 8 ≤ ix → b.v ix = mem ix := by
  obtain ⟨v, hv, hmem, hframe⟩ := bitmapCreate_bytes h₀ h mem
  refine ⟨_, hv, rfl, ⟨h₀, h, fun i hi hlt => ?_⟩, ?_, hframe⟩
  · exact (hmem i hlt).trans (decide_eq_true hi)
  · refine Finset.eq_empty_of_forall_notMem fun i hi => ?_
    obtain ⟨hlt, hm⟩ := PackedBits.mem_members.mp hi
    change i < nbits at hlt
    rw [hmem i (by omega), decide_eq_false (by omega)] at hm
    exact Bool.noConfusion hm

/-! ## The operations -/

namespace Bitmap

variable {b : Bitmap} {i : ℕ}

theorem mem_members : i ∈ b.members ↔ i < b.nbits ∧ PackedBits.mem b.v i = true :=
  PackedBits.mem_members

/-- Bit `i` set, for `i` below `nbits`. -/
theorem Wf.insert (hb : b.Wf) (hi : i < b.nbits) :
    ({ b with v := PackedBits.insert b.v i } : Bitmap).Wf ∧
      ({ b with v := PackedBits.insert b.v i } : Bitmap).members = insert i b.members := by
  refine ⟨⟨hb.pos, hb.le, fun j hj hlt => ?_⟩, PackedBits.members_insert (by decide) hi⟩
  rw [PackedBits.mem_insert (by decide), hb.padding j hj hlt, Bool.or_true]

/-- Bit `i` cleared, for `i` below `nbits`. -/
theorem Wf.erase (hb : b.Wf) (hi : i < b.nbits) :
    ({ b with v := PackedBits.erase b.v i } : Bitmap).Wf ∧
      ({ b with v := PackedBits.erase b.v i } : Bitmap).members = b.members.erase i := by
  refine ⟨⟨hb.pos, hb.le, fun j hj hlt => ?_⟩, PackedBits.members_erase (by decide)⟩
  change b.nbits ≤ j at hj
  rw [PackedBits.mem_erase (by decide), hb.padding j hj hlt, decide_eq_false (by omega)]
  rfl

theorem translate_eq : translate i = (i / 8, PackedBits.mask 8 (i % 8)) := rfl

/-- A test is not zero for a set bit. -/
theorem isset_ne_zero : b.isset i ≠ 0 ↔ PackedBits.mem b.v i = true := by
  simp only [isset, translate_eq]
  rw [Ne, PackedBits.mem, ← Bool.not_eq_false, not_iff_not]
  exact PackedBits.and_mask_eq_zero (Nat.mod_lt i (by decide))

/-- **`bitmap_mark` of a clear bit**. -/
theorem mark_eq (hi : i < b.nbits) (hc : i ∉ b.members) :
    b.mark i = .ok { b with v := PackedBits.insert b.v i } := by
  have hz : ¬ b.isset i ≠ 0 := fun h => hc (mem_members.mpr ⟨hi, isset_ne_zero.mp h⟩)
  simp only [isset, translate_eq, not_not] at hz
  rw [mark, translate_eq, kassert_bind hi, kassert_bind hz, PackedBits.insert]
  rfl

/-- **`bitmap_unmark` of a set bit**. -/
theorem unmark_eq (hm : i ∈ b.members) :
    b.unmark i = .ok { b with v := PackedBits.erase b.v i } := by
  obtain ⟨hi, hm⟩ := mem_members.mp hm
  have hz : b.isset i ≠ 0 := isset_ne_zero.mpr hm
  simp only [isset, translate_eq] at hz
  rw [unmark, translate_eq, kassert_bind hi, kassert_bind hz, PackedBits.erase]
  rfl

/-- The loops of `bitmap_alloc` are a scan of the bits. -/
theorem alloc_eq_scan (hb : b.Wf) : b.alloc =
    match PackedBits.scan b.v ((b.nbits + 7) / 8) with
    | none => .ok (.error .enospc, b)
    | some p => b.allocBit p.1 p.2 := by
  rw [alloc, divroundup_eq hb.pos hb.le, allocLoop, PackedBits.scan]
  cases hix : Loop.firstIdx (fun ix => b.v ix != BitVec.allOnes 8) 0 ((b.nbits + 7) / 8) with
  | none => rfl
  | some ix =>
    obtain ⟨o, ho, -⟩ := PackedBits.exists_firstIdx (bne_iff_ne.mp (Loop.firstIdx_some hix).2)
    have hbits : Loop.firstIdx (fun o => b.v ix &&& PackedBits.mask 8 o == 0#8) 0 bitsPerWord =
        some o := ho
    simp only [hbits, ho, Option.bind_some, Option.map_some]

/-- **`bitmap_alloc`** of a full bitmap fails. -/
theorem alloc_full (hb : b.Wf) (hall : ∀ i < b.nbits, i ∈ b.members) :
    b.alloc = .ok (.error .enospc, b) := by
  rw [alloc_eq_scan hb]
  cases hs : PackedBits.scan b.v ((b.nbits + 7) / 8) with
  | none => rfl
  | some p =>
    obtain ⟨h₁, h₂, hclear, -⟩ := PackedBits.scan_eq_some hs
    -- the clear bit is not below `nbits` and not in the padding
    by_cases hlt : p.1 * 8 + p.2 < b.nbits
    · rw [(mem_members.mp (hall _ hlt)).2] at hclear
      cases hclear
    · rw [hb.padding _ (by omega) (by omega)] at hclear
      cases hclear

/-- **`bitmap_alloc`** sets the lowest clear bit. -/
theorem alloc_lowest (hb : b.Wf) {k : ℕ} (hk : k < b.nbits) (hc : k ∉ b.members) :
    ∃ i, i < b.nbits ∧ i ∉ b.members ∧ (∀ j < i, j ∈ b.members) ∧
      b.alloc = .ok (.ok i, { b with v := PackedBits.insert b.v i }) := by
  have hclear : PackedBits.mem b.v k = false :=
    Bool.not_eq_true _ ▸ fun h => hc (mem_members.mpr ⟨hk, h⟩)
  obtain ⟨ix, o, hs⟩ := PackedBits.exists_scan
    (show k < (b.nbits + 7) / 8 * 8 by omega) hclear
  obtain ⟨h₁, h₂, hz, hlow⟩ := PackedBits.scan_eq_some hs
  have hle : ix * 8 + o ≤ k := by
    by_contra hlt
    rw [hlow k (by omega)] at hclear
    cases hclear
  have hnb := hb.le
  have hadd : wadd (ix * bitsPerWord % wordSize) o = ix * 8 + o := by
    unfold wadd bitsPerWord wordSize
    omega
  refine ⟨ix * 8 + o, by omega, fun h => ?_, fun j hj => mem_members.mpr ⟨by omega, hlow j hj⟩, ?_⟩
  · rw [(mem_members.mp h).2] at hz
    cases hz
  · rw [alloc_eq_scan hb, hs]
    simp only [allocBit]
    rw [hadd, kassert_bind (by omega), PackedBits.insert, show (ix * 8 + o) / 8 = ix by omega,
      show (ix * 8 + o) % 8 = o by omega]
    rfl

/-- **A call that is proper** does what the set does, and stays in the bytes of the bitmap. -/
theorem call_step (hb : b.Wf) {op : BitmapOp} (hpre : BitmapSpec.Pre b.nbits b.members op) :
    ∃ r b', b.call op = .ok (r, b') ∧ b'.Wf ∧ b'.nbits = b.nbits ∧
      BitmapSpec.Step b.nbits b.members op r b'.members ∧
      ∀ ix, (b.nbits + 7) / 8 ≤ ix → b'.v ix = b.v ix := by
  have hins : ∀ {i}, i < b.nbits → ∀ ix, (b.nbits + 7) / 8 ≤ ix →
      PackedBits.insert b.v i ix = b.v ix := fun hi ix hix =>
    PackedBits.insert_of_ne (by omega)
  cases op with
  | alloc =>
    by_cases hall : ∀ i < b.nbits, i ∈ b.members
    · refine ⟨.index (.error .enospc), b, ?_, hb, rfl, .full hall, fun _ _ => rfl⟩
      rw [call, alloc_full hb hall]
      rfl
    · push Not at hall
      obtain ⟨k, hk, hc⟩ := hall
      obtain ⟨i, hi, hnew, hlow, hal⟩ := alloc_lowest hb hk hc
      obtain ⟨hwf, hmem⟩ := hb.insert hi
      refine ⟨.index (.ok i), _, ?_, hwf, rfl, hmem ▸ .alloc hi hnew hlow, hins hi⟩
      rw [call, hal]
      rfl
  | mark i =>
    obtain ⟨hi, hnew⟩ := hpre
    obtain ⟨hwf, hmem⟩ := hb.insert hi
    refine ⟨.done, _, ?_, hwf, rfl, hmem ▸ .mark hi hnew, hins hi⟩
    rw [call, mark_eq hi hnew]
    rfl
  | unmark i =>
    obtain ⟨hi, hm⟩ := hpre
    obtain ⟨hwf, hmem⟩ := hb.erase hi
    refine ⟨.done, _, ?_, hwf, rfl, hmem ▸ .unmark hi hm, fun ix hix =>
      PackedBits.erase_of_ne (by omega)⟩
    rw [call, unmark_eq hm]
    rfl
  | isset i =>
    refine ⟨.bit (b.isset i), b, rfl, hb, rfl, .isset hpre ?_, fun _ _ => rfl⟩
    rw [isset_ne_zero, mem_members]
    exact ⟨fun h => ⟨hpre, h⟩, And.right⟩

/-- **Proper calls in any order** are a run of the set. -/
theorem run_spec : ∀ {ops : List BitmapOp} {b : Bitmap}, b.Wf →
    BitmapSpec.Legal b.nbits b.members ops →
    ∃ rs b', b.run ops = .ok (rs, b') ∧ BitmapSpec.Run b.nbits b.members ops rs b'.members ∧
      ∀ ix, (b.nbits + 7) / 8 ≤ ix → b'.v ix = b.v ix
  | [], b, _, _ => ⟨[], b, rfl, .nil, fun _ _ => rfl⟩
  | op :: ops, b, hb, hl => by
    obtain ⟨r, b₁, hcall, hb₁, hn, hstep, hframe⟩ := call_step hb hl.1
    obtain ⟨rs, b₂, hrun, hruns, hframe'⟩ := run_spec hb₁ (hn.symm ▸ hl.2 r _ hstep)
    rw [hn] at hruns hframe'
    refine ⟨r :: rs, b₂, ?_, .cons hstep hruns, fun ix hix => ?_⟩
    · rw [run, hcall]
      change (b₁.run ops >>= fun rs => _) = _
      rw [hrun]
      rfl
    · rw [hframe' ix hix, hframe ix hix]

/-- **A bitmap is a finite set of the numbers below `nbits`.** The creation returns NULL when one of
its allocations fails; else every list of proper calls returns what the operations of the set
return, and no byte past the rounded-up storage is written. -/
theorem refines_set {nbits : ℕ} (h₀ : 1 ≤ nbits) (h : nbits ≤ 2 ^ 32 - 8) (kmallocB : Bool)
    (kmallocV : Option (ℕ → BitVec 8)) :
    (kmallocB = false ∨ kmallocV = none) ∧ bitmapCreate nbits kmallocB kmallocV = .ok none ∨
    ∃ mem b, kmallocB = true ∧ kmallocV = some mem ∧
      bitmapCreate nbits kmallocB kmallocV = .ok (some b) ∧
      ∀ ops, BitmapSpec.Legal nbits ∅ ops → ∃ rs b', b.run ops = .ok (rs, b') ∧
        BitmapSpec.Run nbits ∅ ops rs b'.members ∧
        ∀ ix, (nbits + 7) / 8 ≤ ix → b'.v ix = mem ix := by
  cases kmallocB with
  | false => exact .inl ⟨.inl rfl, rfl⟩
  | true =>
    cases kmallocV with
    | none => exact .inl ⟨.inr rfl, rfl⟩
    | some mem =>
      obtain ⟨b, hb, rfl, hwf, hempty, hframe⟩ := bitmapCreate_some h₀ h mem
      refine .inr ⟨mem, b, rfl, rfl, hb, fun ops hl => ?_⟩
      obtain ⟨rs, b', hrun, hruns, hframe'⟩ := run_spec hwf (hempty.symm ▸ hl)
      exact ⟨rs, b', hrun, hempty ▸ hruns, fun ix hix => (hframe' ix hix).trans (hframe ix hix)⟩

/-- Three bits in one byte. -/
theorem refines_set_three : ∃ mem b, true = true ∧ some (fun _ => 0xa5#8) = some mem ∧
    bitmapCreate 3 true (some fun _ => 0xa5#8) = .ok (some b) ∧
    ∀ ops, BitmapSpec.Legal 3 ∅ ops → ∃ rs b', b.run ops = .ok (rs, b') ∧
      BitmapSpec.Run 3 ∅ ops rs b'.members ∧ ∀ ix, (3 + 7) / 8 ≤ ix → b'.v ix = mem ix := by
  rcases refines_set (show 1 ≤ 3 by decide) (by decide) true (some fun _ => 0xa5#8) with h | h
  · rcases h.1 with h | h <;> cases h
  · exact h

/-- Three allocations fill it, and the padding is not handed out. -/
example : ((bitmapCreate 3 true (some fun _ => 0xa5#8)).toOption.bind id).bind
    (fun b => (b.run [.alloc, .alloc, .alloc, .alloc]).toOption.map fun r =>
      r.1.map fun r => match r with
        | .index (.ok i) => some i
        | _ => none) = some [some 0, some 1, some 2, none] := by decide +kernel

/-- **The allocation is that of the volume model**, whose freemap is a predicate on blocks. -/
theorem alloc_freemap {m : SfsFs} (hb : b.Wf) (hbits : m.freemapBits = b.nbits)
    (hmap : ∀ i < b.nbits, m.freemap i = decide (i ∈ b.members)) :
    b.alloc.map (fun r => r.1.toOption) = .ok m.bitmapAlloc := by
  have hclear : ∀ {i}, i < b.nbits → ((!m.freemap i) = true ↔ i ∉ b.members) := fun hi => by
    rw [hmap _ hi, Bool.not_eq_true', decide_eq_false_iff_not]
  by_cases hall : ∀ i < b.nbits, i ∈ b.members
  · rw [alloc_full hb hall, SfsFs.bitmapAlloc, hbits, List.find?_eq_none.mpr]
    · rfl
    · intro i hi
      rw [List.mem_range] at hi
      rw [hclear hi]
      exact fun h => h (hall i hi)
  · push Not at hall
    obtain ⟨k, hk, hc⟩ := hall
    obtain ⟨i, hi, hnew, hlow, hal⟩ := alloc_lowest hb hk hc
    rw [hal, SfsFs.bitmapAlloc, hbits, List.find?_range_eq_some.mpr]
    · rfl
    · refine ⟨(hclear hi).mpr hnew, List.mem_range.mpr hi, fun j hj => ?_⟩
      rw [hmap j (by omega), decide_eq_true (hlow j hj)]
      rfl

end Bitmap

end Os161
