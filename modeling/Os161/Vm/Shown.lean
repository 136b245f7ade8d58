import Os161.Vm.Flat
import Os161.Vm.Tables

set_option autoImplicit false

/-!
# What a fault shows

Where the bytes of a flat memory are while a fault is at a given point: in the frames of the pages in
memory, in the slots of the swapped ones and in the buffer of a transfer.

* `Copied`, `PcShows`: what a fault has done of its transfers.
* `Shows`: the invariant of one address space.
* **`shows_of_goStep`**: every step of a fault keeps it.
-/

namespace Os161

open Transition Addrspace

/-- The page whose slot is taken and not written yet. -/
def Pc.writing : Pc → Option ℕ
  | .swapOutCopy v _ _ _ _ _ | .swapOutWrite v _ _ _ _ => some v
  | _ => none

/-- The page of the fault is filled for the first time. -/
def Pc.clearing : Pc → Bool
  | .fill .zero _ _ _ _ _ | .fill .elf _ _ _ _ _ | .elfRead _ => true
  | _ => false

/-- What the buffer of a copy to a page holds, where `g` are the bytes that the page is to have. -/
def Fill.Source (g : ℕ → UInt8) (page dst len : ℕ) (buf : ℕ → UInt8) : Fill → Prop
  | .zero => ∀ o < pageSize, buf o = 0
  | .swap => ∀ o < pageSize, buf o = g (page + o)
  | .elf => ∀ o < pageSize,
    g (page + o) = if dst ≤ page + o ∧ page + o < dst + len then buf (page + o - dst) else 0

/-- **A copy to a page** has brought `done` bytes to its frame; around a copy of program bytes the
frame is clear. -/
structure Copied (mem g : ℕ → UInt8) (page : ℕ) (what : Fill) (paddr dst len : ℕ) (buf : ℕ → UInt8)
    (done : ℕ) : Prop where
  lo : page ≤ dst
  hi : dst + len ≤ page + pageSize
  written : ∀ o < done, mem (paddr + (dst - page) + o) = buf o
  cleared : what = .elf → ∀ o < pageSize, page + o < dst ∨ dst + done ≤ page + o →
    mem (paddr + o) = 0
  source : what.Source g page dst len buf

/-- What is in the memory, in the slots and in the buffer where a fault is. -/
def PcShows (s : VmState) (as : AsId) (g : ℕ → UInt8) (page : ℕ) (seg : SegmentEntry) : Pc → Prop
  | .swapOutCopy v _ _ i buf done => HasSlot s as v i ∧ ∀ o < done, buf o = g (v + o)
  | .swapOutWrite v _ _ i buf => HasSlot s as v i ∧ ∀ o < pageSize, buf o = g (v + o)
  | .swapInRead _ i => ∀ o < pageSize, pageBuf (readPage s.sw i) o = g (page + o)
  | .fill what paddr dst len buf done => Copied s.mem g page what paddr dst len buf done
  | .elfRead paddr => 0 ≤ seg.offset ∧ ∀ o < pageSize, s.mem (paddr + o) = 0
  | .setClean paddr | .map paddr => ∀ o < pageSize, s.mem (paddr + o) = g (page + o)
  | _ => True

/-- **The machine shows an address space its flat memory**: the frames of the pages in memory and the
slots of the swapped ones have its bytes, but for the page that a fault fills and the slot that it
writes, and nothing was stored to a page that was not touched. -/
structure Shows (files : FileId → List UInt8) (s : VmState) (as : AsId) (P : Proc) (m : Flat) :
    Prop where
  describes : m.Describes P.space
  alone : P.stack.tail = []
  stored : ∀ a b, m.stored a = some b → ∃ e ∈ P.space.pt, e.page = pageFrame a ∧
    (e.inSwap = true ∨ e.inMem = true ∧
      ∀ act, P.stack.head? = some act → act.page = e.page → act.pc.clearing = false)
  frame : ∀ e ∈ P.space.pt, e.inMem = true →
    (∀ act, P.stack.head? = some act → act.page ≠ e.page) →
    ∀ o < pageSize, s.mem (e.frame + o) = m.byte files (e.page + o)
  slot : ∀ i v, HasSlot s as v i → (∀ act, P.stack.head? = some act → act.pc.writing ≠ some v) →
    ∀ o < pageSize, pageBuf (readPage s.sw i) o = m.byte files (v + o)
  pc : ∀ act, P.stack.head? = some act → PcShows s as (m.byte files) act.page act.seg act.pc

/-! ## Copies -/

section Copies

variable {s : VmState} {as : AsId} {mem g buf : ℕ → UInt8} {act : Activation} {what : Fill}
  {page paddr dst len done n : ℕ} {pc : Pc}

/-- **A piece of a copy arrives.** -/
theorem Copied.step (h : Copied mem g page what paddr dst len buf done) :
    Copied (poke mem (paddr + (dst - page) + done) n fun o => buf (done + o)) g page what paddr dst
      len buf (done + n) := by
  refine ⟨h.lo, h.hi, fun o ho => ?_, fun hw o ho hout => ?_, h.source⟩
  · by_cases hold : o < done
    · rw [poke_of_not (by omega)]
      exact h.written o hold
    · obtain ⟨d, rfl⟩ : ∃ d, o = done + d := ⟨o - done, by omega⟩
      rw [← Nat.add_assoc, poke_of_lt (by omega)]
  · have hlo := h.lo
    rw [poke_of_not (by omega)]
    exact h.cleared hw o ho (by omega)

/-- A piece of a copy arrives in the buffer. -/
theorem copied_piece {v pa : ℕ} (hbuf : ∀ o < done, buf o = g (v + o))
    (hbytes : ∀ o < n, mem (pa + o) = g (v + (done + o))) :
    ∀ o < done + n, poke buf done n (fun o => mem (pa + o)) o = g (v + o) := by
  intro o ho
  by_cases hold : o < done
  · rw [poke_of_not (by omega)]
    exact hbuf o hold
  · obtain ⟨d, rfl⟩ : ∃ d, o = done + d := ⟨o - done, by omega⟩
    rw [poke_of_lt (by omega)]
    exact hbytes d (by omega)

/-- Where a fault goes on after a piece of a copy. -/
theorem Copied.pcShows (h : Copied s.mem g page what paddr dst len buf done) (hle : done ≤ len)
    (hall : what ≠ .elf → dst = page ∧ len = pageSize)
    (hzero : what = .zero → act.seg.offset < 0 → ∀ o < pageSize, g (page + o) = 0) :
    PcShows s as g page act.seg (act.copying what paddr dst len buf done) := by
  have hwritten : what ≠ .elf → done = len → ∀ o < pageSize, s.mem (paddr + o) = buf o :=
    fun hw hd o ho => by
      obtain ⟨rfl, rfl⟩ := hall hw
      have := h.written o (by omega)
      rwa [Nat.sub_self, Nat.add_zero] at this
  unfold Activation.copying
  by_cases hd : done = len
  · rw [if_pos hd]
    cases what with
    | zero =>
      have hsource : ∀ o < pageSize, buf o = 0 := h.source
      have hclear : ∀ o < pageSize, s.mem (paddr + o) = 0 := fun o ho =>
        (hwritten (by decide) hd o ho).trans (hsource o ho)
      dsimp only
      split_ifs with hs
      · exact fun o ho => (hclear o ho).trans (hzero rfl hs o ho).symm
      · exact ⟨not_lt.mp hs, hclear⟩
    | swap => exact fun o ho => (hwritten (by decide) hd o ho).trans (h.source o ho)
    | elf =>
      intro o ho
      have hsource : g (page + o) = _ := h.source o ho
      have hlo := h.lo
      rw [hsource]
      split_ifs with hin
      · have := h.written (page + o - dst) (by omega)
        rwa [show paddr + (dst - page) + (page + o - dst) = paddr + o by omega] at this
      · exact h.cleared rfl o ho (by omega)
  · rw [if_neg hd]
    exact h

theorem clearing_copying (h : (act.copying what paddr dst len buf done).clearing = true) :
    what ≠ .swap := by
  rintro rfl
  unfold Activation.copying at h
  split_ifs at h <;> cases h

@[simp] theorem writing_copying : (act.copying what paddr dst len buf done).writing = none := by
  unfold Activation.copying
  split_ifs <;> cases what <;> rfl

end Copies

/-! ## The frames of the pages in memory -/

section Frames

variable {s : VmState} {as as' : AsId} {P P' : Proc} {act : Activation} {e e' : PtEntry}
  {a pa o o' : ℕ}

theorem RamLayout.frameAddr_add_inj {ram : RamLayout} {k k' : ℕ} (ho : o < pageSize)
    (ho' : o' < pageSize) (h : ram.frameAddr k + o = ram.frameAddr k' + o') : k = k' := by
  unfold RamLayout.frameAddr pageSize at *
  omega

/-- **The frames of two pages have no byte in common.** -/
theorem CoherentAt.frame_apart (hown : Own s) (h : CoherentAt s as) (hP : s.procs as = some P)
    (hP' : s.procs as' = some P') (hrun : P.stage = .running) (hrun' : P'.stage = .running)
    (he : e ∈ P.space.pt) (he' : e' ∈ P'.space.pt) (hin : e.inMem = true) (hin' : e'.inMem = true)
    (hne : ¬ (as = as' ∧ e = e')) (ho : o < pageSize) (ho' : o' < pageSize) :
    e.frame + o ≠ e'.frame + o' := by
  intro heq
  obtain ⟨k, hk, -⟩ := (hown.proc _ _ hP).pt hrun e he hin
  obtain ⟨k', hk', -⟩ := (hown.proc _ _ hP').pt hrun' e' he' hin'
  rw [hk, hk'] at heq
  obtain rfl := RamLayout.frameAddr_add_inj ho ho' heq
  exact hne (h.frame_unique hown hP hP' hrun hrun' he he' hin hin' (hk.trans hk'.symm))

/-- A write to a part of one frame leaves the frame of another page. -/
theorem CoherentAt.poke_apart {mem g : ℕ → UInt8} {lo n : ℕ} (hown : Own s) (h : CoherentAt s as)
    (hP : s.procs as = some P) (hP' : s.procs as' = some P') (hrun : P.stage = .running)
    (hrun' : P'.stage = .running) (he : e ∈ P.space.pt) (he' : e' ∈ P'.space.pt)
    (hin : e.inMem = true) (hin' : e'.inMem = true) (hne : ¬ (as = as' ∧ e = e'))
    (ho : o < pageSize) (hn : lo + n ≤ pageSize) :
    poke mem (e'.frame + lo) n g (e.frame + o) = mem (e.frame + o) := by
  refine poke_of_not fun hrange => ?_
  have ho' : e.frame + o - e'.frame < pageSize := by omega
  exact h.frame_apart hown hP hP' hrun hrun' he he' hin hin' hne ho ho' (by omega)

/-- What the processor translates is a page in memory. -/
theorem CoherentAt.entry_of_at (h : CoherentAt s as) (hcur : s.cur = some as) (hP : s.procs as = some P)
    (hrun : P.stage = .running)
    (hno : ∀ act, P.stack.head? = some act → ∀ v paddr, act.pc ≠ .replace v paddr)
    (hat : s.At a pa) :
    ∃ e ∈ P.space.pt, e.page = pageFrame a ∧ e.inMem = true ∧ pa = e.frame + pageOffset a := by
  obtain ⟨f, d, hm, rfl⟩ := hat
  rcases (h.mapped _ hcur hP hrun).mem _ f d hm with hin | ⟨act, paddr, hact, hpc⟩
  · obtain ⟨e, he, hp, hmem, rfl⟩ := hin.entry
    exact ⟨e, he, hp, hmem, rfl⟩
  · exact absurd hpc (hno act hact _ _)

/-- A user byte is reached through the entry of its page. -/
theorem CoherentAt.at_eq {v f : ℕ} (h : CoherentAt s as) (hcur : s.cur = some as)
    (hP : s.procs as = some P) (hrun : P.stage = .running)
    (hno : ∀ act, P.stack.head? = some act → ∀ v paddr, act.pc ≠ .replace v paddr)
    (hu : UserPage v) (hin : P.space.InMem v f) (ho : o < pageSize) (hat : s.At (v + o) pa) :
    pa = f + o := by
  obtain ⟨e, he, hp, -, rfl⟩ := h.entry_of_at hcur hP hrun hno hat
  obtain ⟨e', he', hp', -, rfl⟩ := hin.entry
  rw [hu.pageFrame_add ho] at hp
  obtain rfl := entry_unique (h.placed.nodup _ hP) he he' (hp.trans hp'.symm)
  rw [hu.pageOffset_add ho]

end Frames

/-! ## The steps of a fault -/

section Go

variable {files : FileId → List UInt8} {s s' : VmState} {as : AsId} {P P' : Proc} {m : Flat}
  {act : Activation} {rest : List Activation} {pc : Pc} {v i o : ℕ} {e : PtEntry}

/-- The slot of a page that is not being written has its bytes. -/
theorem Shows.slot_of (h : Shows files s as P m) (hst : P.stack = [act]) (hi : HasSlot s as v i)
    (hw : act.pc.writing ≠ some v) (ho : o < pageSize) :
    pageBuf (readPage s.sw i) o = m.byte files (v + o) := by
  refine h.slot i v hi (fun r hr => ?_) o ho
  rw [hst] at hr
  obtain rfl := Option.some.inj hr
  exact hw

theorem Shows.pc_of (h : Shows files s as P m) (hst : P.stack = [act]) :
    PcShows s as (m.byte files) act.page act.seg act.pc := h.pc act (by rw [hst]; rfl)

/-- **Nothing was stored to a page that is filled for the first time.** -/
theorem Shows.byte_clearing (h : Shows files s as P m) (hst : P.stack = [act])
    (hclear : act.pc.clearing = true) (hu : UserPage act.page) (hs : SlotsOk s.sw as P)
    (hnd : P.space.pages.Nodup) {f : ℕ} (hin : P.space.InMem act.page f) (ho : o < pageSize) :
    m.byte files (act.page + o) = m.initial files (act.page + o) := by
  unfold Flat.byte
  cases hb : m.stored (act.page + o) with
  | none => rfl
  | some b =>
    obtain ⟨e, he, hp, hcase⟩ := h.stored _ _ hb
    rw [hu.pageFrame_add ho] at hp
    obtain ⟨e', he', hp', hin', -⟩ := hin.entry
    obtain rfl := entry_unique hnd he he' (hp.trans hp'.symm)
    rcases hcase with hswap | ⟨-, hno⟩
    · rw [hs.apart _ he hin'] at hswap
      cases hswap
    · rw [hno act (by rw [hst]; rfl) hp.symm] at hclear
      cases hclear

/-- **The fault goes on** in the same address space. -/
theorem Shows.keep (h : Shows files s as P m) (hst : P.stack = [act]) (hspace : P'.space = P.space)
    (hst' : P'.stack = [{ act with pc := pc }])
    (hmem : ∀ e ∈ P.space.pt, e.inMem = true → e.page ≠ act.page → ∀ o < pageSize,
      s'.mem (e.frame + o) = s.mem (e.frame + o))
    (hslot : ∀ i v, HasSlot s' as v i → pc.writing ≠ some v → ∀ o < pageSize,
      pageBuf (readPage s'.sw i) o = m.byte files (v + o))
    (hclear : pc.clearing = true → act.pc.clearing = true)
    (hpc : PcShows s' as (m.byte files) act.page act.seg pc) : Shows files s' as P' m := by
  have hhead : ∀ {r}, P'.stack.head? = some r → r = { act with pc := pc } := fun {r} hr => by
    rw [hst'] at hr
    exact (Option.some.inj hr).symm
  have hact : P.stack.head? = some act := by rw [hst]; rfl
  refine ⟨by rw [hspace]; exact h.describes, by rw [hst']; rfl, fun a b hb => ?_,
    fun e he hin hne o ho => ?_, fun i v hi hw => ?_, fun r hr => ?_⟩
  · obtain ⟨e, he, hp, hcase⟩ := h.stored a b hb
    rw [hspace]
    refine ⟨e, he, hp, hcase.imp_right fun ⟨hin, hno⟩ => ⟨hin, fun r hr hpage => ?_⟩⟩
    rw [hhead hr] at hpage ⊢
    have hold := hno act hact hpage
    exact Bool.eq_false_iff.mpr fun hc => absurd (hclear hc) (by rw [hold]; decide)
  · rw [hspace] at he
    have hpage : act.page ≠ e.page := hne { act with pc := pc } (by rw [hst']; rfl)
    rw [hmem e he hin hpage.symm o ho]
    refine h.frame e he hin (fun r hr => ?_) o ho
    rw [hact] at hr
    obtain rfl := Option.some.inj hr
    exact hpage
  · exact hslot i v hi (hw { act with pc := pc } (by rw [hst']; rfl))
  · rw [hhead hr]
    exact hpc

/-- The fault goes on, and the memory and the slots stay as they are. -/
theorem Shows.quiet (h : Shows files s as P m) (hst : P.stack = [act]) (hspace : P'.space = P.space)
    (hst' : P'.stack = [{ act with pc := pc }]) (hmem : s'.mem = s.mem) (hsw : s'.sw = s.sw)
    (hw : pc.writing = act.pc.writing) (hclear : pc.clearing = true → act.pc.clearing = true)
    (hpc : PcShows s' as (m.byte files) act.page act.seg pc) : Shows files s' as P' m := by
  refine h.keep hst hspace hst' (fun e _ _ _ o _ => by rw [hmem]) (fun i v hi hne o ho => ?_) hclear hpc
  unfold HasSlot at hi
  rw [hsw] at hi ⊢
  exact h.slot_of hst hi (by rw [← hw]; exact hne) ho

/-- **The page of the fault is entered**: its slot has its bytes, or nothing was stored to it. -/
theorem Shows.enter {paddr : ℕ} (h : Shows files s as P m) (hst : P.stack = [act])
    (hnd : P.space.pages.Nodup) (hfound : act.Found P.space) (hout : P.space.NotInMem act.page)
    (hbranch : ∀ e ∈ P.space.pt, e.page = act.page → e.inSwap = act.inSwap)
    (hmem : s'.mem = s.mem) (hsw : s'.sw = s.sw) (hw : act.pc.writing = none) :
    Shows files s' as (P.enter act [] paddr) m := by
  obtain ⟨e₀, he₀, hmem₀, hp₀⟩ := hfound.entry
  have hpt : ∀ e, e ∈ (P.enter act [] paddr).space.pt ↔ e ∈ P.space.pt ∧ e.page ≠ e₀.page ∨
      e = { e₀ with frame := paddr, inMem := true, inSwap := false } :=
    fun e => mem_ptSetFrame_iff hnd he₀
  have hno : e₀.inMem = false := by
    obtain ⟨j, e, hj, he, hin⟩ := hout
    obtain rfl := entry_unique hnd hmem₀ (List.mem_of_getElem? he)
      (hp₀.trans (page_of_lookup hj he).symm)
    exact hin
  have hact : P.stack.head? = some act := by rw [hst]; rfl
  refine ⟨h.describes.of_segments rfl rfl, rfl, fun a b hb => ?_, fun e he hin hne o ho => ?_,
    fun i v hi _ o ho => ?_, fun r hr => ?_⟩
  · obtain ⟨e, he, hp, hcase⟩ := h.stored a b hb
    by_cases hep : e.page = e₀.page
    · obtain rfl := entry_unique hnd he hmem₀ hep
      have hswap : act.inSwap = true := by
        rw [← hbranch _ he hp₀]
        exact hcase.resolve_right fun hc => by rw [hno] at hc; cases hc.1
      refine ⟨_, (hpt _).mpr (.inr rfl), hp, .inr ⟨rfl, fun r hr _ => ?_⟩⟩
      obtain rfl := Option.some.inj hr
      change (act.filled paddr).clearing = false
      rw [Activation.filled, if_pos hswap]
      rfl
    · refine ⟨e, (hpt e).mpr (.inl ⟨he, hep⟩), hp, hcase.imp_right fun hin => ⟨hin.1, fun r hr hpage => ?_⟩⟩
      obtain rfl := Option.some.inj hr
      exact absurd (hpage.symm.trans hp₀.symm) hep
  · rw [hmem]
    rcases (hpt e).mp he with ⟨he, hep⟩ | rfl
    · refine h.frame e he hin (fun r hr => ?_) o ho
      rw [hact] at hr
      obtain rfl := Option.some.inj hr
      exact fun hpage => hep (hpage.symm.trans hp₀.symm)
    · exact absurd hp₀.symm (hne { act with pc := act.filled paddr } rfl)
  · unfold HasSlot at hi
    rw [hsw] at hi ⊢
    exact h.slot_of hst hi (by rw [hw]; exact Option.some_ne_none _ ∘ Eq.symm) ho
  · obtain rfl := Option.some.inj hr
    change PcShows s' as (m.byte files) act.page act.seg (act.filled paddr)
    unfold Activation.filled
    split_ifs
    · trivial
    · exact ⟨le_rfl, le_rfl, fun o ho => absurd ho (Nat.not_lt_zero o), fun hw => (by cases hw),
        fun o _ => rfl⟩

theorem length_elfBytes_le {file : List UInt8} {seg : SegmentEntry} {fa i : ℕ} :
    (elfBytes file seg fa i).length ≤ computeMemsz seg i := by
  unfold elfBytes loadPageFromElf vopRead
  simp only [Nat.min_self]
  split_ifs <;> simp

/-- **The program bytes of a page** are those that it is to have. -/
theorem Shows.copied_elf {paddr : ℕ} {v : FileId} (h : Shows files s as P m) (hst : P.stack = [act])
    (hpc : act.pc = .elfRead paddr) (hl : Linked P.space.segments P.space.pages)
    (hnd : P.space.pages.Nodup) (hs : SlotsOk s.sw as P) (hfound : act.Found P.space)
    (hin : P.space.InMem act.page paddr) (hv : P.space.elfFile = some v) :
    Copied s.mem (m.byte files) act.page .elf paddr
      (loadAddress act.seg act.page (pageNumber P.space act.seg act.j))
      (elfBytes (files v) act.seg act.page (pageNumber P.space act.seg act.j)).length
      (fun o => (elfBytes (files v) act.seg act.page (pageNumber P.space act.seg act.j)).getD o 0)
      0 := by
  have hshow := h.pc_of hst
  rw [hpc] at hshow
  obtain ⟨h0, hclear⟩ := hshow
  obtain ⟨hcong, -⟩ := h.describes.congruent _ (List.mem_of_find?_eq_some hfound.seg) h0
  obtain ⟨hn, hnum⟩ := findPte_pageNumber hl hfound.user.1 hfound.seg hfound.pte
  have hi : 1 ≤ pageNumber P.space act.seg act.j := Nat.le_add_left _ _
  obtain ⟨hload, hend, -⟩ := hcong.window hi hn (hnum h0)
  have hlen : (elfBytes (files v) act.seg act.page (pageNumber P.space act.seg act.j)).length ≤ _ :=
    length_elfBytes_le
  refine ⟨by omega, by omega, fun o ho => absurd ho (Nat.not_lt_zero o),
    fun _ o ho _ => hclear o ho, fun o ho => ?_⟩
  rw [h.byte_clearing hst (by rw [hpc]; rfl) hfound.user hs hnd hin ho,
    ← h.describes.firstTouchPage_eq hl hnd hfound h0 hv ho, firstTouchPage]
  by_cases hlo : loadAddress act.seg act.page (pageNumber P.space act.seg act.j) ≤ act.page + o
  · rw [if_pos ⟨h0, hlo⟩]
    split_ifs with hin
    · rfl
    · rw [List.getD_eq_getElem?_getD, List.getElem?_eq_none (by omega)]
      rfl
  · rw [if_neg fun hc => hlo hc.2, if_neg fun hc => hlo hc.1]

/-- **Every step of a fault** shows the same flat memory. -/
theorem shows_of_goStep (hown : Own s) (hc : CoherentAt s as) (hfiles : s.files = files) (hcur : s.cur = some as)
    (hP : s.procs as = some P) (hrun : P.stage = .running) (hst : P.stack = act :: rest)
    (h : Shows files s as P m) (hgo : GoStep s as P act rest s') (hP' : s'.procs as = some P') :
    Shows files s' as P' m := by
  obtain rfl : rest = [] := by
    have := h.alone
    rwa [hst] at this
  have hok := hc.placed.fault _ hP hrun
  have hslots := hc.placed.slots _ hP hrun
  have hnd := hc.placed.nodup _ hP
  have hl := (hown.proc _ _ hP).linked
  have hact : act ∈ P.stack := by rw [hst]; exact List.mem_cons_self
  have hhead : P.stack.head? = some act := by rw [hst]; rfl
  have hfound := hok.found act hact
  have hpc₀ := hok.pc act hact
  have hshow := h.pc_of hst
  have hbranch : act.pc.before = true → ∀ e ∈ P.space.pt, e.page = act.page → e.inSwap = act.inSwap :=
    hslots.branch act hhead
  -- the bytes of the victim, where the copy reads them
  have hvictim : ∀ {victim pos paddr i done pa : ℕ} {buf : ℕ → UInt8},
      act.pc = .swapOutCopy victim pos paddr i buf done → s.At (victim + done) pa →
      ∀ o, done + o < pageSize → s.mem (pa + o) = m.byte files (victim + (done + o)) := by
    intro victim pos paddr i done pa buf hpc hpa o ho
    rw [hpc] at hpc₀
    obtain ⟨hout, hin, hu, hlt⟩ := hpc₀
    have hno : ∀ r, P.stack.head? = some r → ∀ v p, r.pc ≠ .replace v p := fun r hr v p e => by
      rw [hhead] at hr
      obtain rfl := Option.some.inj hr
      rw [hpc] at e
      cases e
    obtain rfl := hc.at_eq hcur hP hrun hno hu hin hlt hpa
    obtain ⟨e, he, hp, hmem, hf⟩ := hin.entry
    have hbytes := h.frame e he hmem (fun r hr hpage => ?_) (done + o) ho
    · rw [hp, hf] at hbytes
      rwa [Nat.add_assoc]
    · rw [hhead] at hr
      obtain rfl := Option.some.inj hr
      exact hin.ne hout (hp.symm.trans hpage.symm)
  cases hgo with
  | full hpc | evict hpc =>
    obtain rfl := Option.some.inj ((setProc_self _ _ _).symm.trans hP')
    exact h.quiet hst rfl rfl rfl rfl (by rw [hpc]; rfl) (fun e => by cases e) trivial
  | alloc hpc =>
    obtain rfl := Option.some.inj ((setProc_self _ _ _).symm.trans hP')
    rw [hpc] at hpc₀
    exact h.enter hst hnd hfound hpc₀ (hbranch (by rw [hpc]; rfl)) rfl rfl (by rw [hpc]; rfl)
  | @swapOutFind victim pos paddr i sw hpc hs =>
    obtain rfl := Option.some.inj ((setProc_self _ _ _).symm.trans hP')
    obtain ⟨hi, -, rfl⟩ := swapOutFind_some hs
    refine h.keep hst rfl rfl (fun _ _ _ _ _ _ => rfl) (fun j v hj hw o ho => ?_)
      (fun e => by cases e) ⟨⟨hi, ?_⟩, fun o ho => absurd ho (Nat.not_lt_zero o)⟩
    · obtain ⟨hlt, he⟩ := hj
      change (s.sw.setEntry i _).entry j = _ at he
      rw [SwapSpace.setEntry_entry] at he
      split_ifs at he
      · cases he
        exact absurd rfl hw
      · exact h.slot_of hst ⟨hlt, he⟩ (by rw [hpc]; exact Option.some_ne_none _ ∘ Eq.symm) ho
    · change (s.sw.setEntry i _).entry i = _
      rw [SwapSpace.setEntry_entry, if_pos rfl]
  | @swapOutCopy victim pos paddr i done n pa buf hpc hlt hpa =>
    obtain rfl := Option.some.inj ((setProc_self _ _ _).symm.trans hP')
    have hbytes := hvictim hpc hpa
    rw [hpc] at hshow
    obtain ⟨hslot, hbuf⟩ := hshow
    refine h.quiet hst rfl rfl rfl rfl (by rw [hpc]; rfl) (fun e => by cases e)
      ⟨hslot, fun o ho => ?_⟩
    exact copied_piece hbuf (fun o ho => hbytes o (by omega)) o ho
  | @swapOutCopied victim pos paddr i done n pa buf hpc hall hpa =>
    obtain rfl := Option.some.inj ((setProc_self _ _ _).symm.trans hP')
    have hbytes := hvictim hpc hpa
    rw [hpc] at hshow
    obtain ⟨hslot, hbuf⟩ := hshow
    refine h.quiet hst rfl rfl rfl rfl (by rw [hpc]; rfl) (fun e => by cases e)
      ⟨hslot, fun o ho => ?_⟩
    exact copied_piece hbuf (fun o ho => hbytes o (by omega)) o (by omega)
  | @swapOutWrite victim pos paddr i buf hpc =>
    obtain rfl := Option.some.inj ((setProc_self _ _ _).symm.trans hP')
    rw [hpc] at hshow
    obtain ⟨hslot, hbuf⟩ := hshow
    refine h.keep hst rfl rfl (fun _ _ _ _ _ _ => rfl) (fun j v hj _ o ho => ?_)
      (fun e => by cases e) trivial
    change pageBuf (readPage (writePage s.sw i fun o => buf o) j) o = m.byte files (v + o)
    by_cases hji : j = i
    · subst hji
      obtain rfl : v = victim := congrArg SwapEntry.vaddr (hj.2.symm.trans hslot.2)
      rw [readPage_writePage_self, pageBuf, dif_pos ho]
      exact hbuf o ho
    · rw [readPage_writePage_ne hji]
      refine h.slot_of hst hj (fun e => ?_) ho
      rw [hpc] at e
      obtain rfl := Option.some.inj e
      exact hji (hc.slot_unique hj hslot)
  | @update victim pos paddr hpc =>
    obtain rfl := Option.some.inj ((setProc_self _ _ _).symm.trans hP')
    have hpt := fun e => mem_ptUpdate_iff (e := e) (v := victim) hnd
    refine ⟨h.describes.of_segments rfl rfl, rfl, fun a b hb => ?_, fun e he hin hne o ho => ?_,
      fun i v hi _ o ho => ?_, fun r hr => ?_⟩
    · obtain ⟨e, he, hp, hcase⟩ := h.stored a b hb
      by_cases hv : e.page = victim
      · exact ⟨_, (hpt _).mpr (.inr ⟨e, he, hv, rfl⟩), hp, .inl rfl⟩
      · refine ⟨e, (hpt e).mpr (.inl ⟨he, hv⟩), hp, hcase.imp_right fun hin => ⟨hin.1, fun r hr _ => ?_⟩⟩
        obtain rfl := Option.some.inj hr
        rfl
    · refine h.frame e (mem_ptUpdate he hin) hin (fun r hr => ?_) o ho
      rw [hhead] at hr
      obtain rfl := Option.some.inj hr
      exact hne { act with pc := .replace victim paddr } rfl
    · exact h.slot_of hst hi (by rw [hpc]; exact Option.some_ne_none _ ∘ Eq.symm) ho
    · obtain rfl := Option.some.inj hr
      trivial
  | replace hpc =>
    obtain rfl := Option.some.inj ((setProc_self _ _ _).symm.trans hP')
    rw [hpc] at hpc₀
    exact h.enter hst hnd hfound hpc₀ (hbranch (by rw [hpc]; rfl)) rfl rfl (by rw [hpc]; rfl)
  | @swapInFind paddr i sw hpc hs =>
    obtain rfl := Option.some.inj ((setProc_self _ _ _).symm.trans hP')
    obtain ⟨hi, htag, rfl⟩ := swapInFind_some hs
    have hno : ∀ v, act.pc.writing ≠ some v := fun v e => by rw [hpc] at e; cases e
    refine h.keep hst rfl rfl (fun _ _ _ _ _ _ => rfl) (fun j v hj _ o ho => ?_)
      (fun e => by cases e) fun o ho => ?_
    · obtain ⟨hlt, he⟩ := hj
      change (s.sw.setEntry i _).entry j = _ at he
      rw [SwapSpace.setEntry_entry] at he
      split_ifs at he
      · cases he
      · exact h.slot_of hst ⟨hlt, he⟩ (hno v) ho
    · exact h.slot_of hst ⟨hi, htag⟩ (hno _) ho
  | @swapInRead paddr i hpc =>
    obtain rfl := Option.some.inj ((setProc_self _ _ _).symm.trans hP')
    rw [hpc] at hshow
    exact h.quiet hst rfl rfl rfl rfl (by rw [hpc]; rfl) (fun e => by cases e)
      ⟨le_rfl, le_rfl, fun o ho => absurd ho (Nat.not_lt_zero o), fun hw => (by cases hw), hshow⟩
  | @fill what paddr dst len done n pa buf hpc hle hpage hpa =>
    obtain rfl := Option.some.inj ((setProc_self _ _ _).symm.trans hP')
    rw [hpc] at hpc₀ hshow
    obtain ⟨hin, hlt, hall⟩ := hpc₀
    have hcopied : Copied s.mem (m.byte files) act.page what paddr dst len buf done := hshow
    have hlo := hcopied.lo
    have hhi := hcopied.hi
    have hno : ∀ r, P.stack.head? = some r → ∀ v p, r.pc ≠ .replace v p := fun r hr v p e => by
      rw [hhead] at hr
      obtain rfl := Option.some.inj hr
      rw [hpc] at e
      cases e
    obtain rfl : pa = paddr + (dst - act.page) + done := by
      rw [show dst + done = act.page + (dst - act.page + done) by omega] at hpa
      rw [hc.at_eq hcur hP hrun hno hfound.user hin (by omega) hpa, Nat.add_assoc]
    obtain ⟨e₀, he₀, hp₀, hmem₀, rfl⟩ := hin.entry
    refine h.keep hst rfl rfl (fun e he hmem hne o ho => ?_)
      (fun i v hi _ o ho => h.slot_of hst hi (by rw [hpc]; exact Option.some_ne_none _ ∘ Eq.symm) ho)
      (fun hclear => ?_) (hcopied.step.pcShows hle hall fun hw hs o ho => ?_)
    · change poke s.mem (e₀.frame + (dst - act.page) + done) n (fun o => buf (done + o))
        (e.frame + o) = s.mem (e.frame + o)
      rw [Nat.add_assoc e₀.frame]
      exact hc.poke_apart hown hP hP hrun hrun he he₀ hmem hmem₀
        (fun heq => hne (by rw [heq.2]; exact hp₀)) ho (by omega)
    · have hw := clearing_copying hclear
      rw [hpc]
      cases what with
      | zero | elf => rfl
      | swap => exact absurd rfl hw
    · have hclear : act.pc.clearing = true := by rw [hpc, hw]; rfl
      rw [h.byte_clearing hst hclear hfound.user hslots hnd hin ho]
      refine h.describes.initial_stack hl hnd ?_ hs
      rw [hfound.user.pageFrame_add ho]
      exact hfound.seg
  | @elfRead paddr v bytes hpc hv hb =>
    obtain rfl := Option.some.inj ((setProc_self _ _ _).symm.trans hP')
    rw [hpc] at hpc₀
    subst hb
    rw [hfiles]
    have hcopied := h.copied_elf hst hpc hl hnd hslots hfound hpc₀ hv
    exact h.quiet hst rfl rfl rfl rfl (by rw [hpc, writing_copying]; rfl) (fun _ => by rw [hpc]; rfl)
      (hcopied.pcShows (Nat.zero_le _) (fun hw => absurd rfl hw) fun hw => by cases hw)
  | setClean hpc =>
    obtain rfl := Option.some.inj ((setProc_self _ _ _).symm.trans hP')
    rw [hpc] at hshow
    exact h.quiet hst rfl rfl rfl rfl (by rw [hpc]; rfl) (fun e => by cases e) hshow
  | @map paddr hpc =>
    obtain rfl := Option.some.inj ((setProc_self _ _ _).symm.trans hP')
    rw [hpc] at hshow hpc₀
    refine ⟨h.describes, rfl, fun a b hb => ?_, fun e he hin _ o ho => ?_, fun i v hi _ o ho => ?_,
      fun r hr => by cases hr⟩
    · obtain ⟨e, he, hp, hcase⟩ := h.stored a b hb
      exact ⟨e, he, hp, hcase.imp_right fun hin => ⟨hin.1, fun r hr => by cases hr⟩⟩
    · by_cases hpage : act.page = e.page
      · obtain ⟨e', he', hp', -, rfl⟩ := Addrspace.InMem.entry hpc₀
        obtain rfl := entry_unique hnd he he' (hpage.symm.trans hp'.symm)
        rw [← hpage]
        exact hshow o ho
      · refine h.frame e he hin (fun r hr => ?_) o ho
        rw [hhead] at hr
        obtain rfl := Option.some.inj hr
        exact hpage
    · exact h.slot_of hst hi (by rw [hpc]; exact Option.some_ne_none _ ∘ Eq.symm) ho

end Go

end Os161
