import Mathlib.Data.Finset.Card
import Os161.Lib.Ring
import Os161.Machine.Stop

set_option autoImplicit false

/-!
# Console input

The ring of characters between `con_input`, which runs in the interrupt handler, and `getch_intr` in
any number of threads. `getch_intr` is three steps: `P`, the read of the slot at the tail, and the
store of the advanced tail. Nothing keeps two readers from reading the same slot.

* `ConSoftc.step`: the interrupts and the readers.
* `ConInv`: the ring holds what was accepted and not returned, the count and the readers that are
  behind `P` make up for the two indexes, and one reader has a character.
* **`console_fifo`**: characters are returned in order, each one once, as long as no reader reads the
  slot while another one has read it and not stored the tail.
-/

namespace Os161

open Transition

/-- `CONSOLE_INPUT_BUFFER_SIZE`. -/
def consoleInputBufferSize : ℕ := 32

/-- Where a thread is in `getch_intr`: outside, behind `P`, or with a character. -/
inductive GetchPc
  | idle
  | took
  | got (ret : UInt8)
  deriving DecidableEq

/-- The thread has read the slot and not stored the tail. -/
def GetchPc.isGot : GetchPc → Bool
  | .got _ => true
  | _ => false

/-- `struct con_softc`, with where the readers are, the characters that `con_input` stored and those
that were returned, in order. -/
structure ConSoftc where
  csRsem : ℕ
  csGotchars : ℕ → UInt8
  csGotcharsHead : ℕ
  csGotcharsTail : ℕ
  pc : ThreadId → GetchPc
  accepted : List UInt8
  returned : List UInt8

/-- An interrupt, or a step of a reader. -/
inductive ConAction
  | conInput (ch : UInt8)
  | P (t : ThreadId)
  | read (t : ThreadId)
  | store (t : ThreadId)
  deriving DecidableEq

namespace ConSoftc

/-- The next index of the ring. -/
def nextIndex (i : ℕ) : ℕ := (i + 1) % consoleInputBufferSize

/-- `attach_console_to_vfs` and the rest of the configuration leave an empty ring. -/
def init : ConSoftc where
  csRsem := 0
  csGotchars := fun _ => 0
  csGotcharsHead := 0
  csGotcharsTail := 0
  pc := fun _ => .idle
  accepted := []
  returned := []

/-- `con_input`, with its `V`. -/
def conInput (s : ConSoftc) (ch : UInt8) : ConSoftc :=
  if nextIndex s.csGotcharsHead = s.csGotcharsTail then s
  else { s with
    csGotchars := Function.update s.csGotchars s.csGotcharsHead ch
    csGotcharsHead := nextIndex s.csGotcharsHead
    csRsem := s.csRsem + 1
    accepted := s.accepted ++ [ch] }

/-- One step. -/
def step (s : ConSoftc) : ConAction → Except Stop ConSoftc
  | .conInput ch => .ok (s.conInput ch)
  | .P t => do
    require (s.pc t = .idle ∧ 0 < s.csRsem)
    return { s with csRsem := s.csRsem - 1, pc := Function.update s.pc t .took }
  | .read t => do
    require (s.pc t = .took)
    return { s with pc := Function.update s.pc t (.got (s.csGotchars s.csGotcharsTail)) }
  | .store t =>
    match s.pc t with
    | .got ret => .ok { s with
        csGotcharsTail := nextIndex s.csGotcharsTail
        pc := Function.update s.pc t .idle
        returned := s.returned ++ [ret] }
    | _ => .error .blocked

/-- The characters in the ring. -/
def contents (s : ConSoftc) : List UInt8 :=
  Ring.contents consoleInputBufferSize s.csGotchars s.csGotcharsHead s.csGotcharsTail

/-- **The invariant**, with the readers `F` that are behind `P`. -/
structure ConInv (s : ConSoftc) (F : Finset ThreadId) : Prop where
  readers : ∀ t, t ∈ F ↔ s.pc t ≠ .idle
  fill : s.accepted.length = s.returned.length + s.csRsem + F.card
  room : s.accepted.length < s.returned.length + consoleInputBufferSize
  head : s.csGotcharsHead = s.accepted.length % consoleInputBufferSize
  tail : s.csGotcharsTail = s.returned.length % consoleInputBufferSize
  slots : Ring.Holds consoleInputBufferSize s.csGotchars s.accepted s.returned.length
  order : s.returned = s.accepted.take s.returned.length
  got : ∀ t ret, s.pc t = .got ret → s.accepted[s.returned.length]? = some ret
  alone : ∀ t u, (s.pc t).isGot = true → (s.pc u).isGot = true → t = u

/-- **Readers do not meet**: none reads the slot at the tail while another one has read it and not
stored the advanced tail. -/
def Alone (s : ConSoftc) : ConAction → Prop
  | .read _ => ∀ u, (s.pc u).isGot = false
  | _ => True

section Invariant

variable {s s' : ConSoftc} {F : Finset ThreadId} {t : ThreadId} {ch ret : UInt8}

theorem inv_init : ConInv init ∅ where
  readers := by simp [init]
  fill := rfl
  room := by decide
  head := rfl
  tail := rfl
  slots := fun i _ hi => absurd hi (Nat.not_lt_zero i)
  order := rfl
  got := by simp [init]
  alone := by simp [init, GetchPc.isGot]

/-- The ring is full when `con_input` drops a character. -/
theorem ConInv.full_iff (h : ConInv s F) :
    nextIndex s.csGotcharsHead = s.csGotcharsTail ↔
      s.accepted.length + 1 = s.returned.length + consoleInputBufferSize := by
  unfold nextIndex
  rw [h.head, h.tail]
  exact Ring.full_iff (by have := h.fill; omega) h.room

theorem ConInv.contents (h : ConInv s F) : s.contents = s.accepted.drop s.returned.length := by
  unfold ConSoftc.contents
  rw [h.head, h.tail]
  exact h.slots.contents (by have := h.fill; omega) h.room

/-- **`con_input`**. -/
theorem ConInv.conInput (h : ConInv s F) (ch : UInt8) : ConInv (s.conInput ch) F := by
  unfold ConSoftc.conInput
  split_ifs with hfull
  · exact h
  · have hfill := h.fill
    have hroom := h.room
    have hle : s.returned.length ≤ s.accepted.length := by omega
    have hfree : s.accepted.length + 1 ≠ s.returned.length + consoleInputBufferSize :=
      fun e => hfull (h.full_iff.mpr e)
    refine ⟨h.readers, ?_, ?_, ?_, h.tail, ?_, ?_, fun t ret ht => ?_, h.alone⟩
    · rw [List.length_append, List.length_singleton]
      change s.accepted.length + 1 = s.returned.length + (s.csRsem + 1) + F.card
      omega
    · rw [List.length_append, List.length_singleton]
      change s.accepted.length + 1 < s.returned.length + _
      omega
    · rw [List.length_append, List.length_singleton]
      change nextIndex s.csGotcharsHead = _
      rw [h.head, nextIndex, Nat.mod_add_mod]
    · change Ring.Holds _ (Function.update _ s.csGotcharsHead _) _ _
      rw [h.head]
      exact h.slots.push hroom ch
    · change s.returned = (s.accepted ++ [ch]).take s.returned.length
      rw [List.take_append_of_le_length hle]
      exact h.order
    · have hlt : s.returned.length < s.accepted.length :=
        (List.getElem?_eq_some_iff.mp (h.got t ret ht)).1
      exact (List.getElem?_append_left hlt).trans (h.got t ret ht)

/-- **`P`** takes a unit, and the reader is behind it. -/
theorem ConInv.P (h : ConInv s F) (ht : s.pc t = .idle) (hpos : 0 < s.csRsem) :
    ConInv { s with csRsem := s.csRsem - 1, pc := Function.update s.pc t .took } (insert t F) := by
  have hfill := h.fill
  have hout : t ∉ F := fun hmem => (h.readers t).mp hmem ht
  have hgot : ∀ u, (Function.update s.pc t .took u).isGot = true → (s.pc u).isGot = true := by
    intro u hu
    by_cases e : u = t
    · subst e
      rw [Function.update_self] at hu
      cases hu
    · rwa [Function.update_of_ne e] at hu
  refine ⟨fun u => ?_, ?_, h.room, h.head, h.tail, h.slots, h.order, fun u ret hu => ?_,
    fun u v hu hv => h.alone u v (hgot u hu) (hgot v hv)⟩
  · change u ∈ insert t F ↔ Function.update s.pc t .took u ≠ .idle
    by_cases e : u = t
    · subst e
      simp
    · rw [Function.update_of_ne e, Finset.mem_insert, ← h.readers u]
      simp [e]
  · rw [Finset.card_insert_of_notMem hout]
    change s.accepted.length = s.returned.length + (s.csRsem - 1) + _
    omega
  · by_cases e : u = t
    · subst e
      cases (Function.update_self u GetchPc.took s.pc).symm.trans hu
    · exact h.got u ret ((Function.update_of_ne e _ _).symm.trans hu)

/-- **The read** of the slot, when no other reader has a character. -/
theorem ConInv.read (h : ConInv s F) (ht : s.pc t = .took) (halone : ∀ u, (s.pc u).isGot = false) :
    ConInv { s with pc := Function.update s.pc t (.got (s.csGotchars s.csGotcharsTail)) } F := by
  have hmem : t ∈ F := (h.readers t).mpr (by rw [ht]; nofun)
  have hlt : s.returned.length < s.accepted.length := by
    have := h.fill
    have := Finset.card_pos.mpr ⟨t, hmem⟩
    omega
  have honly : ∀ u ret, Function.update s.pc t (.got ret) u = .idle → u ≠ t := by
    rintro u ret hu rfl
    rw [Function.update_self] at hu
    cases hu
  refine ⟨fun u => ?_, h.fill, h.room, h.head, h.tail, h.slots, h.order, fun u ret hu => ?_,
    fun u v hu hv => ?_⟩
  · change u ∈ F ↔ Function.update s.pc t _ u ≠ .idle
    by_cases e : u = t
    · subst e
      simp [hmem]
    · rw [Function.update_of_ne e]
      exact h.readers u
  · change s.accepted[s.returned.length]? = some ret
    change Function.update s.pc t _ u = _ at hu
    by_cases e : u = t
    · subst e
      rw [Function.update_self] at hu
      cases hu
      rw [h.slots _ (Nat.le_refl _) hlt, ← h.tail]
    · rw [Function.update_of_ne e] at hu
      have := halone u
      rw [hu] at this
      cases this
  · have hself : ∀ w, (Function.update s.pc t (.got (s.csGotchars s.csGotcharsTail)) w).isGot = true →
        w = t := by
      intro w hw
      by_contra e
      rw [Function.update_of_ne e, halone w] at hw
      cases hw
    rw [hself u hu, hself v hv]

/-- **The store** of the advanced tail: the oldest character is returned. -/
theorem ConInv.store (h : ConInv s F) (ht : s.pc t = .got ret) :
    ConInv { s with
      csGotcharsTail := nextIndex s.csGotcharsTail
      pc := Function.update s.pc t .idle
      returned := s.returned ++ [ret] } (F.erase t) := by
  have hmem : t ∈ F := (h.readers t).mpr (by rw [ht]; nofun)
  have hfill := h.fill
  have hroom := h.room
  have hcard := Finset.card_pos.mpr ⟨t, hmem⟩
  have hnone : ∀ u, (Function.update s.pc t .idle u).isGot = false := by
    intro u
    by_cases e : u = t
    · rw [e, Function.update_self]
      rfl
    · rw [Function.update_of_ne e]
      by_contra hu
      exact e (h.alone u t (Bool.eq_true_of_not_eq_false hu) (by rw [ht]; rfl))
  have hlen : (s.returned ++ [ret]).length = s.returned.length + 1 := by simp
  refine ⟨fun u => ?_, ?_, ?_, h.head, ?_, ?_, ?_, fun u ret' hu => ?_, fun u v hu _ => ?_⟩
  · change u ∈ F.erase t ↔ Function.update s.pc t .idle u ≠ .idle
    by_cases e : u = t
    · subst e
      simp
    · rw [Function.update_of_ne e, Finset.mem_erase, ← h.readers u]
      simp [e]
  · rw [Finset.card_erase_of_mem hmem, hlen]
    change s.accepted.length = s.returned.length + 1 + s.csRsem + _
    omega
  · rw [hlen]
    change s.accepted.length < s.returned.length + 1 + _
    omega
  · rw [hlen]
    change nextIndex s.csGotcharsTail = _
    rw [h.tail, nextIndex, Nat.mod_add_mod]
  · rw [hlen]
    exact h.slots.mono (Nat.le_succ _)
  · change s.returned ++ [ret] = s.accepted.take (s.returned ++ [ret]).length
    rw [hlen, List.take_add_one, ← h.order, h.got t ret ht]
    rfl
  · have := hnone u
    change Function.update s.pc t .idle u = .got ret' at hu
    rw [hu] at this
    cases this
  · cases (hnone u).symm.trans hu

/-- **Every step** that meets the condition. -/
theorem inv_step {a : ConAction} (h : ∃ F, ConInv s F) (halone : s.Alone a)
    (hs : s.step a = .ok s') : ∃ F, ConInv s' F := by
  obtain ⟨F, h⟩ := h
  cases a with
  | conInput ch =>
    cases hs
    exact ⟨F, h.conInput ch⟩
  | P t =>
    obtain ⟨⟨ht, hpos⟩, hs⟩ := require_bind_ok.mp hs
    cases hs
    exact ⟨_, h.P ht hpos⟩
  | read t =>
    obtain ⟨ht, hs⟩ := require_bind_ok.mp hs
    cases hs
    exact ⟨F, h.read ht halone⟩
  | store t =>
    unfold step at hs
    cases hpc : s.pc t with
    | idle | took =>
      simp only [hpc] at hs
      cases hs
    | got ret =>
      simp only [hpc] at hs
      cases hs
      exact ⟨_, h.store hpc⟩

/-- **The console input is a queue**: what was accepted is what was returned and what is in the ring,
in this order. -/
structure ConFifo (s : ConSoftc) : Prop where
  order : s.accepted = s.returned ++ s.contents
  /-- A character is dropped only when all slots but one are in use. -/
  drop : ∀ ch, (s.conInput ch).accepted = s.accepted ++ [ch] ∨
    s.conInput ch = s ∧ s.contents.length + 1 = consoleInputBufferSize
  count : (∀ t, s.pc t = .idle) → s.csRsem =
    (s.csGotcharsHead + consoleInputBufferSize - s.csGotcharsTail) % consoleInputBufferSize
  /-- A call returns the oldest character. -/
  next : (∀ t, s.pc t = .idle) → ∀ ch rest, s.contents = ch :: rest → ∀ t,
    ∃ s', run step s [.P t, .read t, .store t] = .ok s' ∧ s'.returned = s.returned ++ [ch] ∧
      s'.contents = rest

/-- Between the calls. -/
theorem ConInv.of_idle (h : ConInv s F) (hidle : ∀ t, s.pc t = .idle) :
    s.accepted.length = s.returned.length + s.csRsem := by
  have hempty : F = ∅ := Finset.eq_empty_of_forall_notMem fun t ht => (h.readers t).mp ht (hidle t)
  have hfill := h.fill
  rwa [hempty, Finset.card_empty, Nat.add_zero] at hfill

/-- **A call on its own** returns the oldest character. -/
theorem ConInv.getchIntr (h : ConInv s F) (hidle : ∀ t, s.pc t = .idle) {rest : List UInt8}
    (hc : s.contents = ch :: rest) (t : ThreadId) :
    ∃ s', run step s [.P t, .read t, .store t] = .ok s' ∧ s'.returned = s.returned ++ [ch] ∧
      s'.contents = rest := by
  have hdrop : s.accepted.drop s.returned.length = ch :: rest := h.contents.symm.trans hc
  have hlt : s.returned.length < s.accepted.length := by
    by_contra hge
    rw [List.drop_of_length_le (Nat.not_lt.mp hge)] at hdrop
    cases hdrop
  have hpos : 0 < s.csRsem := by
    have := h.of_idle hidle
    omega
  have hhead : s.accepted[s.returned.length]? = some ch := by
    rw [← List.head?_drop, hdrop]
    rfl
  have hslot : s.csGotchars s.csGotcharsTail = ch := by
    rw [h.slots _ (Nat.le_refl _) hlt, ← h.tail] at hhead
    exact Option.some.inj hhead
  have h₁ := h.P (hidle t) hpos
  have h₂ := h₁.read (t := t) (Function.update_self ..) fun u => by
    by_cases e : u = t
    · change (Function.update s.pc t .took u).isGot = false
      rw [e, Function.update_self]
      rfl
    · change (Function.update s.pc t .took u).isGot = false
      rw [Function.update_of_ne e, hidle u]
      rfl
  have h₃ := h₂.store (t := t) (Function.update_self ..)
  refine ⟨_, ?_, ?_, h₃.contents.trans ?_⟩
  · rw [run_cons, step, require_bind ⟨hidle t, hpos⟩]
    change (step _ (.read t) >>= _) = _
    rw [step, require_bind (Function.update_self ..)]
    change (step _ (.store t) >>= _) = _
    simp only [step, Function.update_self]
    rfl
  · exact congrArg (fun c => s.returned ++ [c]) hslot
  · have hlen : (s.returned ++ [s.csGotchars s.csGotcharsTail]).length = s.returned.length + 1 := by
      simp
    change s.accepted.drop (s.returned ++ [s.csGotchars s.csGotcharsTail]).length = rest
    rw [hlen, ← List.tail_drop, hdrop]
    rfl

theorem ConInv.fifo (h : ConInv s F) : ConFifo s := by
  have hfill := h.fill
  have hroom := h.room
  have hlen : s.contents.length = s.accepted.length - s.returned.length := by
    rw [h.contents, List.length_drop]
  refine ⟨?_, fun ch => ?_, fun hidle => ?_, fun hidle ch rest hc t => h.getchIntr hidle hc t⟩
  · rw [h.contents]
    conv_rhs => rw [h.order]
    rw [List.length_take, Nat.min_eq_left (by omega), List.take_append_drop]
  · unfold ConSoftc.conInput
    split_ifs with hfull
    · refine .inr ⟨rfl, ?_⟩
      have := h.full_iff.mp hfull
      omega
    · exact .inl rfl
  · rw [h.head, h.tail, Ring.distance (by omega) hroom]
    have := h.of_idle hidle
    omega

/-- **The console input is a queue** in every run in which readers do not meet at the slot. -/
theorem console_fifo {acts : List ConAction} (halone : Along step Alone init acts)
    (hrun : run step init acts = .ok s) : ConFifo s := by
  obtain ⟨F, h⟩ := run_inv_along step (fun _ _ _ h halone hs => inv_step h halone hs)
    (⟨∅, inv_init⟩ : ∃ F, ConInv init F) halone hrun
  exact h.fifo

end Invariant

/-- The menu and a program both wait for a character, and one of them is interrupted between the read
and the store. -/
def meet : List ConAction :=
  [.conInput 97, .conInput 98, .P 0, .P 1, .read 0, .read 1, .store 0, .store 1]

/-- Both return the first character, and the second one is lost. -/
theorem console_fifo_meet : ¬ ∀ acts s, run step init acts = .ok s → ConFifo s := by
  intro hall
  obtain ⟨s, hs, he⟩ := exists_ok_of_toOption (show (run step init meet).toOption.map
    (fun s => (s.accepted, s.returned ++ s.contents)) = some ([97, 98], [97, 97]) by decide)
  have horder := (hall meet s hs).order
  simp only [Prod.mk.injEq] at he
  rw [he.1, he.2] at horder
  exact absurd horder (by decide)

/-- Two readers one after the other, of which the second one waits behind `P`. -/
theorem console_fifo_twoReaders :
    ∃ s, run step init [.conInput 97, .conInput 98, .P 0, .P 1, .read 0, .store 0, .read 1,
        .store 1] = .ok s ∧ s.returned = [97, 98] ∧ ConFifo s := by
  obtain ⟨s, hs, he⟩ := exists_ok_of_toOption (show (run step init [.conInput 97, .conInput 98,
    .P 0, .P 1, .read 0, .store 0, .read 1, .store 1]).toOption.map (fun s => s.returned) =
      some [97, 98] by decide)
  refine ⟨s, hs, he, console_fifo ?_ hs⟩
  refine ⟨trivial, fun s₁ h₁ => ⟨trivial, fun s₂ h₂ => ⟨trivial, fun s₃ h₃ => ⟨trivial,
    fun s₄ h₄ => ⟨fun u => ?_, fun s₅ h₅ => ⟨trivial, fun s₆ h₆ => ⟨fun u => ?_, fun s₇ h₇ =>
      ⟨trivial, fun _ _ => trivial⟩⟩⟩⟩⟩⟩⟩⟩
  · cases h₁
    cases h₂
    cases h₃
    cases h₄
    change (Function.update (Function.update (fun _ => GetchPc.idle) 0 .took) 1 .took u).isGot = _
    simp only [Function.update_apply]
    split_ifs <;> rfl
  · cases h₁
    cases h₂
    cases h₃
    cases h₄
    cases h₅
    cases h₆
    change (Function.update (Function.update (Function.update (Function.update
      (fun _ => GetchPc.idle) 0 .took) 1 .took) 0 (.got 97)) 0 .idle u).isGot = _
    simp only [Function.update_apply]
    split_ifs <;> rfl

end ConSoftc

end Os161
