import Os161.Vm.Shown

set_option autoImplicit false

/-!
# The transparency of virtual memory

Through first touches, evictions and swap-ins of any address spaces in any order, the machine shows
every process its flat memory, if faults are serviced one at a time. What the regions of the other
address spaces are does not matter.

* `TransparentAt`: the invariant of one address space; `Transparent`: the one of the machine.
* **`transparentAt_step`**: every step keeps it, and the flat memory goes along.
* **`TransparentAt.load`**: what a load returns.
-/

namespace Os161

open Transition Addrspace

/-- While a fault fills its page, the TLB maps the page writable. -/
def Fillable (s : VmState) (as : AsId) (P : Proc) : Prop :=
  s.cur = some as → ∀ act, P.stack.head? = some act → ∀ f, ¬ s.tlb.Maps act.page f false

/-- The slot that a fault writes to. -/
def Pc.slot : Pc → Option ℕ
  | .swapOutCopy _ _ _ i _ _ | .swapOutWrite _ _ _ i _ => some i
  | _ => none

/-- **The invariant of one address space**, with its flat memory `m`: the others' faults write to no
slot of it. -/
structure TransparentAt (files : FileId → List UInt8) (s : VmState) (as : AsId) (m : Flat) : Prop where
  own : Own s
  coherent : CoherentAt s as
  static : s.files = files
  serial : ∀ as as' P P', s.procs as = some P → s.procs as' = some P' → P.stack ≠ [] →
    P'.stack ≠ [] → as = as'
  strangers : ∀ as' P, as' ≠ as → s.procs as' = some P → ∀ act ∈ P.stack, ∀ i v,
    act.pc.slot = some i → ¬ HasSlot s as v i
  shows : ∀ P, s.procs as = some P → P.stage = .running → Shows files s as P m
  fillable : ∀ P, s.procs as = some P → P.stage = .running → Fillable s as P

/-- **The invariant of the machine**, with the flat memories `m`. -/
structure Transparent (files : FileId → List UInt8) (s : VmState) (m : AsId → Flat) : Prop where
  coherent : Coherent s
  static : s.files = files
  serial : ∀ as as' P P', s.procs as = some P → s.procs as' = some P' → P.stack ≠ [] →
    P'.stack ≠ [] → as = as'
  shows : ∀ as P, s.procs as = some P → P.stage = .running → Shows files s as P (m as)
  fillable : ∀ as P, s.procs as = some P → P.stage = .running → Fillable s as P

/-- Regions are regular, the program file is set before the first touch, and faults are serviced one at
a time. -/
def Orderly (s : VmState) : VmAction → Prop
  | .defineRegion _ vaddr offset sz _ _ _ _ => Region.Regular ⟨vaddr, offset, sz⟩
  | .completeLoad as _ => ∀ P, s.procs as = some P → P.Untouched
  | .fault as _ => ∀ as' P, as' ≠ as → s.procs as' = some P → P.stack = []
  | _ => True

/-- Faults are serviced one at a time. -/
def Serial (s : VmState) : VmAction → Prop
  | .fault as _ => ∀ as' P, as' ≠ as → s.procs as' = some P → P.stack = []
  | _ => True

theorem Orderly.serial {s : VmState} {a : VmAction} (h : Orderly s a) : Serial s a := by
  cases a with
  | fault => exact h
  | _ => trivial

/-- The invariant of the machine is that of all address spaces. -/
theorem transparent_iff {files : FileId → List UInt8} {s : VmState} {m : AsId → Flat} :
    Transparent files s m ↔ ∀ as, TransparentAt files s as (m as) := by
  constructor
  · intro h as
    have hown := h.coherent.placed.own
    refine ⟨hown, h.coherent.coherentAt as, h.static, h.serial, fun as' P hne hP act hact i v hi hv => ?_,
      h.shows as, h.fillable as⟩
    -- the slot is tagged with the page that the fault writes out
    have hrun : P.stage = .running := by
      by_contra hc
      rw [((hown.proc _ _ hP).idle hc).1] at hact
      cases hact
    have hshow := h.shows _ _ hP hrun
    have hhead : P.stack.head? = some act := by
      have htail := hshow.alone
      cases hst : P.stack with
      | nil => rw [hst] at hact; cases hact
      | cons r rest =>
        rw [hst] at hact htail
        obtain rfl : rest = [] := htail
        rw [List.mem_singleton.mp hact]
        rfl
    have hpc := hshow.pc act hhead
    have hslot : ∃ w, HasSlot s as' w i := by
      unfold Pc.slot at hi
      split at hi
      · next hact => rw [hact] at hpc; cases hi; exact ⟨_, hpc.1⟩
      · next hact => rw [hact] at hpc; cases hi; exact ⟨_, hpc.1⟩
      · cases hi
    obtain ⟨w, hw⟩ := hslot
    exact hne (Option.some.inj (congrArg SwapEntry.as (hw.2.symm.trans hv.2)))
  · intro h
    exact ⟨coherent_iff.mpr ⟨(h 0).own, fun as => (h as).coherent⟩, (h 0).static, (h 0).serial,
      fun as => (h as).shows, fun as => (h as).fillable⟩

theorem Transparent.transparentAt {files : FileId → List UInt8} {s : VmState} {m : AsId → Flat}
    (h : Transparent files s m) (as : AsId) : TransparentAt files s as (m as) :=
  transparent_iff.mp h as

/-! ## The steps of the others -/

section Others

variable {files : FileId → List UInt8} {s s' : VmState} {as as' : AsId} {P P' : Proc} {m : Flat}
  {act : Activation} {rest : List Activation} {a : VmAction} {e : PtEntry} {v i o : ℕ}

/-- A write to a frame of another address space leaves the frame of a page. -/
theorem Own.poke_apart {mem g : ℕ → UInt8} {k lo n : ℕ} (hown : Own s) (hP : s.procs as = some P)
    (hrun : P.stage = .running) (he : e ∈ P.space.pt) (hin : e.inMem = true)
    (hk : s.cms.Holds as' k) (hne : as' ≠ as) (ho : o < pageSize) (hn : lo + n ≤ pageSize) :
    poke mem (s.cms.cm.ram.frameAddr k + lo) n g (e.frame + o) = mem (e.frame + o) := by
  obtain ⟨k', hk', hholds⟩ := (hown.proc _ _ hP).pt hrun e he hin
  refine poke_of_not fun hrange => ?_
  rw [hk'] at hrange
  obtain ⟨d, hd⟩ : ∃ d, s.cms.cm.ram.frameAddr k' + o = s.cms.cm.ram.frameAddr k + d :=
    ⟨s.cms.cm.ram.frameAddr k' + o - s.cms.cm.ram.frameAddr k, by omega⟩
  obtain rfl := RamLayout.frameAddr_add_inj ho (by omega) hd
  exact hne (hown.cm.holds_unique hk hholds)

/-- **The others leave the frames of an address space alone.** -/
theorem TransparentAt.mem_of_others (h : TransparentAt files s as m) (hstep : VmStep s a s')
    (hact : a.actor ≠ some as) (hstore : ∀ x b, a ≠ .store as x b) (hP : s.procs as = some P)
    (hrun : P.stage = .running) (he : e ∈ P.space.pt) (hin : e.inMem = true) (ho : o < pageSize) :
    s'.mem (e.frame + o) = s.mem (e.frame + o) := by
  have hown := h.own
  cases hstep with
  | @store as' P' x pa b hcur hP' hrun' hst ha hpa =>
    obtain ⟨f, d, hm, rfl⟩ := hpa
    obtain ⟨k, rfl, hk⟩ := hown.maps _ _ hcur hP' hrun' _ _ _ hm
    change poke s.mem _ 1 (fun _ => b) (e.frame + o) = s.mem (e.frame + o)
    exact hown.poke_apart hP hrun he hin hk (fun heq => hstore x b (by rw [heq])) ho
      (Nat.succ_le_of_lt (pageOffset_lt x))
  | @kwrite pa b hno =>
    change poke s.mem pa 1 (fun _ => b) (e.frame + o) = s.mem (e.frame + o)
    refine poke_of_not fun hrange => ?_
    obtain ⟨k, hk, hholds⟩ := (hown.proc _ _ hP).pt hrun e he hin
    have huser := userFrame_of_holds hown.cm hholds ho
    rw [← hk, show e.frame + o = pa by omega, hno] at huser
    cases huser
  | @go as' P' act rest n s' hcur hP' hrun' hst hgo =>
    cases hgo with
    | @fill what paddr dst len done n pa buf hpc hle hpage hpa =>
      obtain ⟨f, d, hm, rfl⟩ := hpa
      obtain ⟨k, rfl, hk⟩ := hown.maps _ _ hcur hP' hrun' _ _ _ hm
      change poke s.mem _ n (fun o => buf (done + o)) (e.frame + o) = s.mem (e.frame + o)
      exact hown.poke_apart hP hrun he hin hk (fun heq => hact (congrArg some heq)) ho hpage
    | _ => rfl
  | fault _ _ _ _ _ _ hf => cases hf <;> rfl
  | _ => rfl

/-- **The others leave the slots of an address space alone**, and all slots while it has a fault. -/
theorem TransparentAt.readPage_of_others (h : TransparentAt files s as m) (hstep : VmStep s a s')
    (hact : a.actor ≠ some as) (hP : s.procs as = some P)
    (hi : HasSlot s as v i ∨ P.stack ≠ []) : readPage s'.sw i = readPage s.sw i := by
  cases hstep with
  | exitSwap _ _ _ hsw =>
    rw [hsw]
    exact readPage_swapAsfree
  | @go as' P' act rest n s' hcur hP' hrun' hst hgo =>
    have hslot : HasSlot s as v i := hi.resolve_right fun hne => hact (congrArg some
      (h.serial _ _ _ _ hP' hP (by rw [hst]; exact List.cons_ne_nil _ _) hne))
    cases hgo with
    | swapOutFind _ hs =>
      obtain ⟨-, -, rfl⟩ := swapOutFind_some hs
      rfl
    | swapInFind _ hs =>
      obtain ⟨-, -, rfl⟩ := swapInFind_some hs
      rfl
    | @swapOutWrite victim pos paddr j buf hpc =>
      change readPage (writePage s.sw j fun o => buf o) i = readPage s.sw i
      refine readPage_writePage_ne ?_
      rintro rfl
      exact h.strangers as' P' (fun heq => hact (congrArg some heq)) hP' act
        (by rw [hst]; exact List.mem_cons_self) i v (by rw [hpc]; rfl) hslot
    | _ => rfl
  | fault _ _ _ _ _ _ hf => cases hf <;> rfl
  | _ => rfl

@[simp] theorem slot_filled {paddr : ℕ} : (act.filled paddr).slot = none := by
  unfold Activation.filled
  split_ifs <;> rfl

@[simp] theorem slot_copying {what : Fill} {paddr dst len done : ℕ} {buf : ℕ → UInt8} :
    (act.copying what paddr dst len buf done).slot = none := by
  unfold Activation.copying
  split_ifs <;> cases what <;> rfl

/-- The slots that a process writes to are those that it wrote to, or one that was free. -/
theorem slot_of_goStep (hst : P.stack = act :: rest) (hgo : GoStep s as P act rest s')
    (hP' : s'.procs as = some P') {r : Activation} (hr : r ∈ P'.stack) (hi : r.pc.slot = some i) :
    (∃ r' ∈ P.stack, r'.pc.slot = some i) ∨ (s.sw.entry i).as = none := by
  have hrest : ∀ {pc : Pc}, r ∈ { act with pc := pc } :: rest →
      (pc.slot = some i → act.pc.slot = some i) → ∃ r' ∈ P.stack, r'.pc.slot = some i :=
    fun {pc} hr hpc => by
      rw [hst]
      rcases List.mem_cons.mp hr with rfl | hr
      · exact ⟨act, List.mem_cons_self, hpc hi⟩
      · exact ⟨r, List.mem_cons_of_mem _ hr, hi⟩
  cases hgo with
  | @swapOutFind victim pos paddr j sw hpc hs =>
    obtain rfl := Option.some.inj ((setProc_self _ _ _).symm.trans hP')
    obtain ⟨-, hfree, -⟩ := swapOutFind_some hs
    rcases List.mem_cons.mp hr with rfl | hr'
    · obtain rfl := Option.some.inj hi
      exact .inr hfree
    · exact .inl ⟨r, by rw [hst]; exact List.mem_cons_of_mem _ hr', hi⟩
  | swapOutCopy hpc | swapOutCopied hpc =>
    obtain rfl := Option.some.inj ((setProc_self _ _ _).symm.trans hP')
    exact .inl (hrest hr fun e => by rw [hpc]; exact e)
  | map =>
    obtain rfl := Option.some.inj ((setProc_self _ _ _).symm.trans hP')
    exact .inl ⟨r, by rw [hst]; exact List.mem_cons_of_mem _ hr, hi⟩
  | alloc | replace =>
    obtain rfl := Option.some.inj ((setProc_self _ _ _).symm.trans hP')
    exact .inl (hrest hr fun e => by rw [slot_filled] at e; cases e)
  | fill | elfRead =>
    obtain rfl := Option.some.inj ((setProc_self _ _ _).symm.trans hP')
    exact .inl (hrest hr fun e => by rw [slot_copying] at e; cases e)
  | _ =>
    obtain rfl := Option.some.inj ((setProc_self _ _ _).symm.trans hP')
    exact .inl (hrest hr fun e => by cases e)

/-- An address space gets a new slot from its own `swap_out` only. -/
theorem hasSlot_of_vmStep (hown : Own s) (hstep : VmStep s a s') (hi : HasSlot s' as v i) :
    HasSlot s as v i ∨ a.actor = some as ∧ ∃ P, s.procs as = some P ∧ P.stack ≠ [] := by
  by_cases hact : a.actor = some as
  swap
  · exact .inl ⟨hi.1, ((agree_of_vmStep hown hstep hact).slot i hi.1 v).mp hi.2⟩
  cases hstep with
  | exitSwap _ _ _ hsw =>
    obtain ⟨hlt, he⟩ := hi
    rw [hsw] at he
    exact .inl ⟨hlt, ((swapAsfree_slot hlt).mp he).1⟩
  | fault _ _ _ _ _ _ hf => cases hf <;> exact .inl hi
  | go hcur hP hrun hst =>
    cases hact
    exact .inr ⟨rfl, _, hP, by rw [hst]; exact List.cons_ne_nil _ _⟩
  | _ => exact .inl hi

/-- **The others' faults write to no slot of the address space.** -/
theorem TransparentAt.strangers_step (h : TransparentAt files s as m) (hstep : VmStep s a s') :
    ∀ as' P, as' ≠ as → s'.procs as' = some P → ∀ act ∈ P.stack, ∀ i v,
      act.pc.slot = some i → ¬ HasSlot s' as v i := by
  intro as' P' hne hP' r hr i v hi hslot
  have hown := h.own
  by_cases hact : a.actor = some as'
  · have hslot' : HasSlot s as v i := by
      refine (hasSlot_of_vmStep hown hstep hslot).resolve_right ?_
      rintro ⟨hact', -⟩
      exact hne (Option.some.inj (hact.symm.trans hact'))
    cases hstep with
    | create | defineRegion _ _ hst | defineStack _ _ hst | completeLoad _ _ hst =>
      cases hact
      obtain rfl := Option.some.inj ((setProc_self _ _ _).symm.trans hP')
      first | cases hr | (rw [hst] at hr; cases hr)
    | exitCm hcur hP hrun hst =>
      cases hact
      obtain rfl := Option.some.inj ((setProc_self _ _ _).symm.trans hP')
      exact h.strangers _ _ hne hP r hr i v hi hslot'
    | exitSwap hcur hP =>
      cases hact
      obtain rfl := Option.some.inj ((setProc_self _ _ _).symm.trans hP')
      exact h.strangers _ _ hne hP r hr i v hi hslot'
    | exitDone =>
      cases hact
      cases (Function.update_self as' none s.procs).symm.trans hP'
    | fault hcur hP _ _ _ _ hf =>
      cases hact
      cases hf with
      | reload => exact h.strangers _ _ hne hP' r hr i v hi hslot'
      | push =>
        obtain rfl := Option.some.inj ((setProc_self _ _ _).symm.trans hP')
        rcases List.mem_cons.mp hr with rfl | hr
        · cases hi
        · exact h.strangers _ _ hne hP r hr i v hi hslot'
      | abort hst =>
        obtain rfl := Option.some.inj ((setProc_self _ _ _).symm.trans hP')
        rcases List.mem_cons.mp hr with rfl | hr
        · cases hi
        · exact h.strangers _ _ hne hP r (by rw [hst]; exact List.mem_cons_of_mem _ hr) i v hi hslot'
    | go hcur hP hrun hst hgo =>
      cases hact
      rcases slot_of_goStep hst hgo hP' hr hi with ⟨r', hr', hi'⟩ | hfree
      · exact h.strangers _ _ hne hP r' hr' i v hi' hslot'
      · rw [hslot'.2] at hfree
        cases hfree
    | _ => cases hact
  · have hP := (agree_of_vmStep hown hstep hact).procs.symm.trans hP'
    rcases hasSlot_of_vmStep hown hstep hslot with hslot' | ⟨-, Q, hQ, hQne⟩
    · exact h.strangers _ _ hne hP r hr i v hi hslot'
    · exact hne (h.serial _ _ _ _ hP hQ (List.ne_nil_of_mem hr) hQne)

theorem Copied.congr {mem mem' g buf : ℕ → UInt8} {page paddr dst len done : ℕ} {what : Fill}
    (h : Copied mem g page what paddr dst len buf done) (hle : done ≤ len)
    (hmem : ∀ o < pageSize, mem' (paddr + o) = mem (paddr + o)) :
    Copied mem' g page what paddr dst len buf done := by
  have hlo := h.lo
  have hhi := h.hi
  refine ⟨hlo, hhi, fun o ho => ?_, fun hw o ho hout => ?_, h.source⟩
  · rw [Nat.add_assoc, hmem _ (by omega), ← Nat.add_assoc]
    exact h.written o ho
  · rw [hmem o ho]
    exact h.cleared hw o ho hout

/-- What a fault has done stays as it is. -/
theorem PcShows.congr {g : ℕ → UInt8} {space : Addrspace} {page : ℕ} {seg : SegmentEntry} {pc : Pc}
    (h : PcShows s as g page seg pc) (hpc : PcOk space page pc)
    (hslot : ∀ v i, HasSlot s as v i → HasSlot s' as v i)
    (hread : ∀ i, readPage s'.sw i = readPage s.sw i)
    (hmem : ∀ f, space.InMem page f → ∀ o < pageSize, s'.mem (f + o) = s.mem (f + o)) :
    PcShows s' as g page seg pc := by
  cases pc with
  | swapOutCopy | swapOutWrite => exact ⟨hslot _ _ h.1, h.2⟩
  | swapInRead paddr i =>
    change ∀ o < pageSize, pageBuf (readPage s'.sw i) o = _
    rw [hread]
    exact h
  | fill => exact Copied.congr h (le_of_lt hpc.2.1) (hmem _ hpc.1)
  | elfRead => exact ⟨h.1, fun o ho => (hmem _ hpc o ho).trans (h.2 o ho)⟩
  | setClean | map => exact fun o ho => (hmem _ hpc o ho).trans (h o ho)
  | _ => trivial

/-- **The steps of the others** show an address space the same flat memory. -/
theorem TransparentAt.shows_of_others (h : TransparentAt files s as m) (hstep : VmStep s a s')
    (hact : a.actor ≠ some as) (hstore : ∀ x b, a ≠ .store as x b) (hP : s.procs as = some P)
    (hrun : P.stage = .running) : Shows files s' as P m := by
  have hag := agree_of_vmStep h.own hstep hact
  have hold := h.shows _ hP hrun
  have hmem : ∀ e ∈ P.space.pt, e.inMem = true → ∀ o < pageSize,
      s'.mem (e.frame + o) = s.mem (e.frame + o) := fun e he hin o ho =>
    h.mem_of_others hstep hact hstore hP hrun he hin ho
  refine ⟨hold.describes, hold.alone, hold.stored, fun e he hin hne o ho => ?_,
    fun i v hi hw o ho => ?_, fun act hhead => ?_⟩
  · rw [hmem e he hin o ho]
    exact hold.frame e he hin hne o ho
  · have hi' : HasSlot s as v i := ⟨hi.1, (hag.slot i hi.1 v).mp hi.2⟩
    rw [h.readPage_of_others hstep hact hP (.inl hi')]
    exact hold.slot i v hi' hw o ho
  · have hne : P.stack ≠ [] := fun hnil => by rw [hnil] at hhead; cases hhead
    refine (hold.pc act hhead).congr
      ((h.coherent.placed.fault _ hP hrun).pc act (List.mem_of_mem_head? hhead))
      (fun v i hi => ⟨hi.1, (hag.slot i hi.1 v).mpr hi.2⟩)
      (fun i => h.readPage_of_others (v := 0) hstep hact hP (.inr hne)) fun f hin o ho => ?_
    obtain ⟨e, he, -, hmem', rfl⟩ := hin.entry
    exact hmem e he hmem' o ho

end Others

/-! ## The steps of an address space -/

section Own

variable {files : FileId → List UInt8} {s s' : VmState} {as : AsId} {P : Proc} {m m' : Flat}
  {act : Activation} {rest : List Activation} {v i o x pa : ℕ} {b : UInt8} {e : PtEntry}

theorem SegmentEntry.Formed.page_of_chain {seg : SegmentEntry} (h : seg.Formed)
    (hp : v ∈ seg.chain) : pageSize ∣ v ∧ v < wordSize := by
  obtain ⟨j, -, rfl⟩ := List.mem_map.mp hp
  obtain ⟨c, hc⟩ := h.dvd
  split_ifs
  · exact ⟨Nat.dvd_sub (by decide) (Nat.dvd_mul_left _ _),
      lt_of_le_of_lt (Nat.sub_le _ _) (by decide)⟩
  · refine ⟨(Nat.dvd_mod_iff (by decide)).mpr ?_, Nat.mod_lt _ (by decide)⟩
    rw [hc]
    exact Nat.dvd_add (Nat.dvd_mul_right _ _) (Nat.dvd_mul_left _ _)

/-- The entries are for pages. -/
theorem Linked.pageFrame_add {segs : List SegmentEntry} {pages : List ℕ} (h : Linked segs pages)
    (hp : v ∈ pages) (ho : o < pageSize) : pageFrame (v + o) = v := by
  have hpage : pageSize ∣ v ∧ v < wordSize := by
    induction h with
    | nil => cases hp
    | cons hseg _ _ ih =>
      rcases List.mem_append.mp hp with hp | hp
      · exact hseg.page_of_chain hp
      · exact ih hp
  obtain ⟨⟨c, rfl⟩, hlt⟩ := hpage
  unfold pageFrame wordSize pageSize at *
  omega

theorem mem_pages (he : e ∈ P.space.pt) : e.page ∈ P.space.pages := List.mem_map.mpr ⟨e, he, rfl⟩

/-- A page with a slot has an entry that says so, when there is no fault. -/
theorem SlotsOk.entry_of_slot (h : SlotsOk s.sw as P) (hst : P.stack = []) (hi : HasSlot s as v i) :
    ∃ e ∈ P.space.pt, e.page = v ∧ e.inSwap = true := by
  rcases (h.held v).mp ⟨i, hi⟩ with he | ⟨act, hact, -⟩
  · exact he
  · rw [hst] at hact
    cases hact

/-- **A new region** shows its bytes, and the old pages show theirs. -/
theorem Shows.extend {space : Addrspace} (h : Shows files s as P m) (hst : P.stack = [])
    (hl : Linked P.space.segments P.space.pages) (hs : SlotsOk s.sw as P)
    (he : Extends P.space space) (hdesc : m'.Describes space) (hstored : m'.stored = m.stored)
    (hbyte : ∀ a, pageFrame a ∈ P.space.pages → m'.initial files a = m.initial files a) :
    Shows files (s.setProc as { P with space := space }) as { P with space := space } m' := by
  obtain ⟨seg, new, -, -, -, hpt, -, hnew⟩ := he
  have hold : ∀ e ∈ P.space.pt, ∀ o < pageSize,
      m'.byte files (e.page + o) = m.byte files (e.page + o) := fun e he o ho => by
    unfold Flat.byte
    rw [hstored, hbyte _ (by rw [hl.pageFrame_add (mem_pages he) ho]; exact mem_pages he)]
  have hno : ∀ {r : Activation}, P.stack.head? ≠ some r := by simp [hst]
  refine ⟨hdesc, h.alone, fun a b hb => ?_, fun e he hin _ o ho => ?_, fun i v hi _ o ho => ?_,
    fun r hr => absurd hr hno⟩
  · rw [hstored] at hb
    obtain ⟨e, he, hp, hcase⟩ := h.stored a b hb
    exact ⟨e, by rw [hpt]; exact List.mem_append_right _ he, hp, hcase⟩
  · rcases List.mem_append.mp (hpt ▸ he) with he | he
    · rw [(hnew e he).1] at hin
      cases hin
    · rw [hold e he o ho]
      exact h.frame e he hin (fun r hr => absurd hr hno) o ho
  · obtain ⟨e, he, rfl, -⟩ := hs.entry_of_slot hst hi
    rw [hold e he o ho]
    exact h.slot i _ hi (fun r hr => absurd hr hno) o ho

/-- **The program file is set** before the first touch. -/
theorem Shows.completeLoad {f : FileId} (h : Shows files s as P m) (hst : P.stack = [])
    (hs : SlotsOk s.sw as P) (hun : P.Untouched) :
    Shows files (s.setProc as { P with space := asCompleteLoad P.space f }) as
      { P with space := asCompleteLoad P.space f } { m with elfFile := some f } := by
  refine ⟨h.describes.completeLoad, h.alone, h.stored, fun e he hin => ?_, fun i v hi => ?_,
    fun r hr => ?_⟩
  · rw [(hun e he).1] at hin
    cases hin
  · obtain ⟨e, he, -, hswap⟩ := hs.entry_of_slot hst hi
    rw [(hun e he).2] at hswap
    cases hswap
  · change P.stack.head? = some r at hr
    rw [hst] at hr
    cases hr

/-- **A store** changes one byte. -/
theorem Shows.store (hown : Own s) (hc : CoherentAt s as) (h : Shows files s as P m) (hcur : s.cur = some as)
    (hP : s.procs as = some P) (hrun : P.stage = .running) (hst : P.stack = [])
    (hx : x < userspaceTop) (hpa : s.At x pa) :
    Shows files { s with mem := poke s.mem pa 1 fun _ => b } as P
      { m with stored := Function.update m.stored x (some b) } := by
  have hnd := hc.placed.nodup _ hP
  have hl := (hown.proc _ _ hP).linked
  have hslots := hc.placed.slots _ hP hrun
  have hno : ∀ {r : Activation}, P.stack.head? ≠ some r := by simp [hst]
  obtain ⟨e₀, he₀, hp₀, hin₀, rfl⟩ :=
    hc.entry_of_at hcur hP hrun (fun r hr => absurd hr hno) hpa
  have hsplit : e₀.page + pageOffset x = x := by
    rw [hp₀]
    exact pageFrame_add_pageOffset (lt_trans hx (by decide))
  have hbyte : ∀ y, Flat.byte { m with stored := Function.update m.stored x (some b) } files y =
      if y = x then b else m.byte files y := fun y => by
    simp only [Flat.byte, Function.update_apply]
    split_ifs <;> rfl
  -- the bytes of the other pages are at other addresses
  have hother : ∀ e ∈ P.space.pt, e ≠ e₀ → ∀ o < pageSize, e.page + o ≠ x := by
    rintro e he hne o ho rfl
    rw [hl.pageFrame_add (mem_pages he) ho] at hp₀
    exact hne (entry_unique hnd he he₀ hp₀.symm)
  refine ⟨⟨h.describes.elfFile, h.describes.region, h.describes.congruent⟩, h.alone,
    fun y c hy => ?_, fun e he hin _ o ho => ?_, fun i v hi _ o ho => ?_,
    fun r hr => absurd hr hno⟩
  · by_cases hyx : y = x
    · exact ⟨e₀, he₀, by rw [hyx]; exact hp₀, .inr ⟨hin₀, fun r hr => absurd hr hno⟩⟩
    · exact h.stored y c (by rw [← hy]; exact (Function.update_of_ne hyx _ _).symm)
  · rw [hbyte]
    change poke s.mem (e₀.frame + pageOffset x) 1 (fun _ => b) (e.frame + o) = _
    by_cases hee : e = e₀
    · subst hee
      by_cases hox : o = pageOffset x
      · rw [hox, if_pos hsplit]
        exact poke_of_lt Nat.one_pos
      · rw [if_neg (by omega), poke_of_not (by omega)]
        exact h.frame e he hin (fun r hr => absurd hr hno) o ho
    · rw [if_neg (hother e he hee o ho), hc.poke_apart hown hP hP hrun hrun he he₀ hin hin₀
        (fun heq => hee heq.2) ho (Nat.succ_le_of_lt (pageOffset_lt x))]
      exact h.frame e he hin (fun r hr => absurd hr hno) o ho
  · obtain ⟨e, he, rfl, hswap⟩ := hslots.entry_of_slot hst hi
    rw [hbyte, if_neg (hother e he ?_ o ho)]
    · exact h.slot i _ hi (fun r hr => absurd hr hno) o ho
    · rintro rfl
      rw [hslots.apart _ he hin₀] at hswap
      cases hswap

/-- A copy accesses the page of its fault. -/
theorem Shows.access_page (h : Shows files s as P m) (hst : P.stack = act :: rest)
    (hacc : act.access = some x) (hok : PcOk P.space act.page act.pc) (hu : UserPage act.page)
    {paddr dst len done : ℕ} {buf : ℕ → UInt8} (hpc : act.pc = .fill .elf paddr dst len buf done) :
    pageFrame x = act.page := by
  have hshow := h.pc act (by rw [hst]; rfl)
  rw [hpc] at hshow hok
  rw [Activation.access, hpc] at hacc
  obtain rfl := Option.some.inj hacc
  have hlo := Copied.lo hshow
  have hhi := Copied.hi hshow
  have hlt := hok.2.1
  rw [show dst + done = act.page + (dst - act.page + done) by omega]
  exact hu.pageFrame_add (by omega)

/-- **The start of a fault** shows the same flat memory, and no fault interrupts another one. -/
theorem shows_of_faultStep (hc : CoherentAt s as) (hP : s.procs as = some P) (hrun : P.stage = .running)
    (hst : P.stack = [] ∨ P.stack.head?.bind Activation.access = some x)
    (h : Shows files s as P m) (hf : FaultStep s as P x s') {P' : Proc}
    (hP' : s'.procs as = some P') : Shows files s' as P' m := by
  have hok := hc.placed.fault _ hP hrun
  cases hf with
  | reload =>
    obtain rfl := Option.some.inj (hP.symm.trans hP')
    refine ⟨h.describes, h.alone, h.stored, h.frame, h.slot, fun r hr => ?_⟩
    exact (h.pc r hr).congr (hok.pc r (List.mem_of_mem_head? hr)) (fun _ _ => id) (fun _ => rfl)
      fun _ _ _ _ => rfl
  | @push seg j pte hseg hj hpte hin =>
    obtain rfl := Option.some.inj ((setProc_self _ _ _).symm.trans hP')
    have hout : P.space.NotInMem (pageFrame x) :=
      ⟨j, pte, lookup_eq_some.mpr ⟨seg, hseg, hj⟩, hpte, hin⟩
    have hnil : P.stack = [] := by
      refine hst.resolve_right fun hacc => ?_
      cases hstack : P.stack with
      | nil => rw [hstack] at hacc; cases hacc
      | cons act rest =>
        have hact : act ∈ P.stack := by rw [hstack]; exact List.mem_cons_self
        have hacc' : act.access = some x := by simpa [hstack] using hacc
        have hpcok := hok.pc act hact
        have hu := (hok.found act hact).user
        obtain ⟨paddr, dst, len, buf, done, hpc⟩ := hpcok.elf_of_notInMem hacc' hu hout
        rw [h.access_page hstack hacc' hpcok hu hpc] at hout
        rw [hpc] at hpcok
        exact hpcok.1.absurd hout
    have hno : ∀ {r : Activation}, P.stack.head? ≠ some r := by simp [hnil]
    refine ⟨h.describes, hnil, fun a b hb => ?_, fun e he hin _ => ?_, fun i v hi _ => ?_,
      fun r hr => ?_⟩
    · obtain ⟨e, he, hp, hcase⟩ := h.stored a b hb
      refine ⟨e, he, hp, hcase.imp_right fun hmem => ⟨hmem.1, fun r hr _ => ?_⟩⟩
      obtain rfl := Option.some.inj hr
      rfl
    · exact h.frame e he hin fun r hr => absurd hr hno
    · exact h.slot i v hi fun r hr => absurd hr hno
    · obtain rfl := Option.some.inj hr
      trivial
  | @abort act rest paddr dst len done buf hst' hpc hno =>
    have hact : act ∈ P.stack := by rw [hst']; exact List.mem_cons_self
    have hfound := hok.found act hact
    have hacc : act.access = some x := by simpa [hst'] using hst
    have hpage := h.access_page hst' hacc (hok.pc act hact) hfound.user hpc
    rw [hpage] at hno
    rcases hno with hseg | ⟨seg, hseg, hj⟩
    · rw [hfound.seg] at hseg
      cases hseg
    · rw [hfound.seg] at hseg
      obtain rfl := Option.some.inj hseg
      rw [hfound.pte] at hj
      cases hj

end Own

/-! ## The steps of the machine -/

section Step

variable {files : FileId → List UInt8} {s s' : VmState} {as : AsId} {P P' : Proc} {m : Flat}
  {a : VmAction}

/-- Nothing maps the page of a fault that has not entered it. -/
theorem Fillable.of_not_maps (h : ∀ act, P.stack.head? = some act → ∀ f d, ¬ s.tlb.Maps act.page f d) :
    Fillable s as P := fun _ act hact f => h act hact f false

theorem Fillable.of_nil (h : P.stack = []) : Fillable s as P := fun _ act hact => by
  rw [h] at hact
  cases hact

/-- The mapping of the page of a fault is entered while its frame is `LOADING`. -/
theorem fillable_of_faultStep {x : ℕ} (hown : Own s) (hc : CoherentAt s as) (hcur : s.cur = some as)
    (hP : s.procs as = some P) (hrun : P.stage = .running)
    (hst : P.stack = [] ∨ P.stack.head?.bind Activation.access = some x)
    (hmiss : s.tlb.lookup (pageFrame x) = none) (h : Fillable s as P) (hf : FaultStep s as P x s')
    (hP' : s'.procs as = some P') : Fillable s' as P' := by
  have hok := hc.placed.fault _ hP hrun
  cases hf with
  | @reload seg j pte hseg hj hpte hin =>
    obtain rfl := Option.some.inj (hP.symm.trans hP')
    intro _ act hact f hm
    rcases of_maps_tlbW hm with ⟨hpage, -, hd⟩ | hold
    swap
    · exact h hcur act hact f hold
    have hmem : P.space.InMem (pageFrame x) pte.frame :=
      ⟨j, pte, lookup_eq_some.mpr ⟨seg, hseg, hj⟩, hpte, hin, rfl⟩
    rw [← hpage] at hmem
    have hacc : act.access = some x := by
      rcases hst with hnil | hacc
      · rw [hnil] at hact
        cases hact
      · rwa [hact] at hacc
    have hmem' := List.mem_of_mem_head? hact
    have hpc₀ := hok.pc act hmem'
    have hfr := (hown.proc _ _ hP).acts act hmem'
    unfold Activation.access at hacc
    split at hacc
    · next hpc =>
      rw [hpc] at hpc₀
      exact hmem.absurd hpc₀.1
    · next hpc =>
      rw [hpc] at hpc₀ hfr
      obtain ⟨k, rfl, ht⟩ := hfr
      obtain ⟨hlt, -, -, hload⟩ := CmSys.tag_eq_some.mp ht
      have hcheck : cmCheckState s.cms.cm pte.frame .loading = true := by
        rw [hmem.unique hpc₀.1, cmCheckState_frameAddr hlt, decide_eq_true_eq, hload]
      rw [if_pos hcheck] at hd
      cases hd
    · cases hacc
  | @push seg j pte hseg hj hpte hin =>
    obtain rfl := Option.some.inj ((setProc_self _ _ _).symm.trans hP')
    refine .of_not_maps fun act hact f d => ?_
    obtain rfl := Option.some.inj hact
    exact (hok.wf hcur).not_maps_of_lookup hmiss
  | @abort act rest _ _ _ _ _ hst' hpc =>
    obtain rfl := Option.some.inj ((setProc_self _ _ _).symm.trans hP')
    intro _ r hr
    obtain rfl := Option.some.inj hr
    exact h hcur act (by rw [hst']; rfl)

/-- **The step of a fault** enters its page writable. -/
theorem fillable_of_goStep {act : Activation} (hcur : s.cur = some as) (hst : P.stack = [act])
    (h : Fillable s as P) (hgo : GoStep s as P act [] s') (hP' : s'.procs as = some P') :
    Fillable s' as P' := by
  have hhead : P.stack.head? = some act := by rw [hst]; rfl
  cases hgo with
  | @replace victim paddr hpc =>
    obtain rfl := Option.some.inj ((setProc_self _ _ _).symm.trans hP')
    intro _ r hr f hm
    obtain rfl := Option.some.inj hr
    rcases of_maps_tlbR hm with ⟨-, -, hd⟩ | hold
    · cases hd
    · exact h hcur act hhead f hold
  | map =>
    obtain rfl := Option.some.inj ((setProc_self _ _ _).symm.trans hP')
    exact .of_nil rfl
  | _ =>
    obtain rfl := Option.some.inj ((setProc_self _ _ _).symm.trans hP')
    intro _ r hr
    obtain rfl := Option.some.inj hr
    exact h hcur act hhead

theorem TransparentAt.fillable_step (h : TransparentAt files s as m) (hstep : VmStep s a s') :
    ∀ P, s'.procs as = some P → P.stage = .running → Fillable s' as P := by
  intro P' hP' hrun'
  have hc := h.coherent
  by_cases hact : a.actor = some as
  swap
  · have hP := (agree_of_vmStep h.own hstep hact).procs.symm.trans hP'
    intro hcur'
    rcases tlb_of_vmStep hstep hact hcur' with ⟨hcur, he⟩ | he
    · rw [he]
      exact h.fillable _ hP hrun' hcur
    · rw [he]
      exact fun _ _ _ => not_maps_tlbFlush
  cases hstep with
  | create =>
    cases hact
    obtain rfl := Option.some.inj ((setProc_self _ _ _).symm.trans hP')
    exact .of_nil rfl
  | defineRegion hP hrun hst | defineStack hP hrun hst | completeLoad hP hrun hst =>
    cases hact
    obtain rfl := Option.some.inj ((setProc_self _ _ _).symm.trans hP')
    exact .of_nil hst
  | exitCm | exitSwap =>
    cases hact
    obtain rfl := Option.some.inj ((setProc_self _ _ _).symm.trans hP')
    cases hrun'
  | exitDone =>
    cases hact
    cases (Function.update_self as none s.procs).symm.trans hP'
  | fault hcur hP hrun hx hmiss hst hf =>
    cases hact
    exact fillable_of_faultStep h.own hc hcur hP hrun hst hmiss (h.fillable _ hP hrun) hf hP'
  | @go as P act rest n _ hcur hP hrun hst hgo =>
    cases hact
    obtain rfl : rest = [] := by
      have := (h.shows _ hP hrun).alone
      rwa [hst] at this
    exact fillable_of_goStep hcur hst (h.fillable _ hP hrun) hgo hP'
  | _ => cases hact

theorem files_of_vmStep (hstep : VmStep s a s') : s'.files = s.files := by
  cases hstep with
  | fault _ _ _ _ _ _ hf => cases hf <;> rfl
  | go _ _ _ _ hgo => cases hgo <;> rfl
  | _ => rfl

/-- A process has a fault because it had one or begins one. -/
theorem stack_of_vmStep (hown : Own s) (hstep : VmStep s a s') (hP' : s'.procs as = some P')
    (hne : P'.stack ≠ []) :
    (∃ P, s.procs as = some P ∧ P.stack ≠ []) ∨ ∃ x, a = .fault as x := by
  by_cases hact : a.actor = some as
  swap
  · exact .inl ⟨P', (agree_of_vmStep hown hstep hact).procs.symm.trans hP', hne⟩
  cases hstep with
  | create =>
    cases hact
    obtain rfl := Option.some.inj ((setProc_self _ _ _).symm.trans hP')
    exact absurd rfl hne
  | defineRegion hP | defineStack hP | completeLoad hP | exitCm _ hP | exitSwap _ hP =>
    cases hact
    obtain rfl := Option.some.inj ((setProc_self _ _ _).symm.trans hP')
    exact .inl ⟨_, hP, hne⟩
  | exitDone =>
    cases hact
    cases (Function.update_self as none s.procs).symm.trans hP'
  | fault =>
    cases hact
    exact .inr ⟨_, rfl⟩
  | go hcur hP hrun hst =>
    cases hact
    exact .inl ⟨_, hP, by rw [hst]; exact List.cons_ne_nil _ _⟩
  | _ => cases hact

theorem serial_step (hown : Own s) (h : ∀ as as' P P', s.procs as = some P →
    s.procs as' = some P' → P.stack ≠ [] → P'.stack ≠ [] → as = as') (hser : Serial s a)
    (hstep : VmStep s a s') : ∀ as as' P P', s'.procs as = some P → s'.procs as' = some P' →
      P.stack ≠ [] → P'.stack ≠ [] → as = as' := by
  intro as as' P P' hP hP' hne hne'
  rcases stack_of_vmStep hown hstep hP hne with ⟨Q, hQ, hQne⟩ | ⟨x, rfl⟩ <;>
    rcases stack_of_vmStep hown hstep hP' hne' with ⟨Q', hQ', hQne'⟩ | ⟨x', hx'⟩
  · exact h _ _ _ _ hQ hQ' hQne hQne'
  · subst hx'
    by_contra hc
    exact hQne (hser _ Q hc hQ)
  · by_contra hc
    exact hQne' (hser _ Q' (fun e => hc e.symm) hQ')
  · exact (VmAction.fault.inj hx').1

/-- The others' flat memories stay as they are. -/
theorem flatStep_of_ne {m : AsId → Flat} (hact : a.actor ≠ some as) (hstore : ∀ x b, a ≠ .store as x b) :
    flatStep m a as = m as := by
  cases a with
  | create as' | defineRegion as' | completeLoad as' =>
    exact Function.update_of_ne (fun e => hact (by rw [e]; rfl)) _ _
  | store as' x b => exact Function.update_of_ne (fun e => hstore x b (by rw [e])) _ _
  | _ => rfl

/-- **Every step of the machine** shows the flat memory after the same step. -/
theorem TransparentAt.shows_step {m : AsId → Flat} (h : TransparentAt files s as (m as))
    (hdef : a.actor = some as → DefineApart s a ∧ Orderly s a) (hstep : VmStep s a s') :
    ∀ P, s'.procs as = some P → P.stage = .running → Shows files s' as P (flatStep m a as) := by
  intro P' hP' hrun'
  have hc := h.coherent
  have hown := h.own
  by_cases hact : a.actor = some as
  swap
  · have hP := (agree_of_vmStep hown hstep hact).procs.symm.trans hP'
    by_cases hstore : ∀ x b, a ≠ .store as x b
    · rw [flatStep_of_ne hact hstore]
      exact h.shows_of_others hstep hact hstore hP hrun'
    · push Not at hstore
      obtain ⟨x, b, rfl⟩ := hstore
      cases hstep with
      | store hcur hP₀ hrun hst hx hpa =>
        obtain rfl := Option.some.inj (hP₀.symm.trans hP)
        rw [flatStep, Function.update_self]
        exact (h.shows _ hP hrun).store hown hc hcur hP hrun hst hx hpa
  have hnd := nodup_of_vmStep hown hc.placed (fun e => (hdef e).1) hstep
  have hord := (hdef hact).2
  cases hstep with
  | create hnone =>
    cases hact
    obtain rfl := Option.some.inj ((setProc_self _ _ _).symm.trans hP')
    rw [flatStep, Function.update_self]
    refine ⟨Flat.describes_empty, rfl, fun x b hb => (by cases hb), fun e he => (by cases he),
      fun i v hi => ?_, fun r hr => (by cases hr)⟩
    exact absurd (congrArg SwapEntry.as hi.2) ((hown.gone _ hnone).2 i hi.1)
  | @defineRegion as P vaddr offset sz r w x b space hP hrun hst ho hd =>
    cases hact
    obtain rfl := Option.some.inj ((setProc_self _ _ _).symm.trans hP')
    rw [flatStep, Function.update_self]
    have hshow := h.shows _ hP hrun
    have hnd' : space.pages.Nodup := hnd _ hP'
    exact hshow.extend hst (hown.proc _ _ hP).linked (hc.placed.slots _ hP hrun)
      (extends_asDefineRegion ho hd) (hshow.describes.defineRegion hd ho hord) rfl
      fun y hy => initial_defineRegion hd ho hord hnd' hy
  | defineStack hP hrun hst =>
    cases hact
    obtain rfl := Option.some.inj ((setProc_self _ _ _).symm.trans hP')
    have hshow := h.shows _ hP hrun
    exact hshow.extend hst (hown.proc _ _ hP).linked (hc.placed.slots _ hP hrun)
      extends_asDefineStack hshow.describes.defineStack rfl fun _ _ => rfl
  | completeLoad hP hrun hst =>
    cases hact
    obtain rfl := Option.some.inj ((setProc_self _ _ _).symm.trans hP')
    rw [flatStep, Function.update_self]
    exact (h.shows _ hP hrun).completeLoad hst (hc.placed.slots _ hP hrun) (hord _ hP)
  | exitCm | exitSwap =>
    cases hact
    obtain rfl := Option.some.inj ((setProc_self _ _ _).symm.trans hP')
    cases hrun'
  | exitDone =>
    cases hact
    cases (Function.update_self as none s.procs).symm.trans hP'
  | fault hcur hP hrun hx hmiss hst hf =>
    cases hact
    exact shows_of_faultStep hc hP hrun hst (h.shows _ hP hrun) hf hP'
  | go hcur hP hrun hst hgo =>
    cases hact
    exact shows_of_goStep hown hc h.static hcur hP hrun hst (h.shows _ hP hrun) hgo hP'
  | _ => cases hact

/-- **Every step keeps an address space transparent**, whatever the others do. -/
theorem transparentAt_step {m : AsId → Flat} (h : TransparentAt files s as (m as)) (hser : Serial s a)
    (hdef : a.actor = some as → DefineApart s a ∧ Orderly s a) (hs : s.step a = .ok s') :
    TransparentAt files s' as (flatStep m a as) where
  own := own_step h.own (vmStep_of_step hs)
  coherent := coherentAt_step h.own h.coherent (fun e => (hdef e).1) hs
  static := (files_of_vmStep (vmStep_of_step hs)).trans h.static
  serial := serial_step h.own h.serial hser (vmStep_of_step hs)
  strangers := h.strangers_step (vmStep_of_step hs)
  shows := h.shows_step hdef (vmStep_of_step hs)
  fillable := h.fillable_step (vmStep_of_step hs)

/-- **Every step keeps the machine transparent.** -/
theorem transparent_step {m : AsId → Flat} (h : Transparent files s m) (hdef : DefineApart s a)
    (hord : Orderly s a) (hs : s.step a = .ok s') : Transparent files s' (flatStep m a) :=
  transparent_iff.mpr fun as =>
    transparentAt_step (h.transparentAt as) hord.serial (fun _ => ⟨hdef, hord⟩) hs

end Step

section Run

variable {ram : RamLayout} {garbage : ℕ → CmEntry} {file mem : ℕ → UInt8}
  {files : FileId → List UInt8} {acts : List VmAction} {s s' : VmState} {as : AsId} {a : ℕ}
  {b : UInt8}

/-- The flat memories after the actions. -/
def flatRun (acts : List VmAction) : AsId → Flat := acts.foldl flatStep fun _ => .empty

/-- **Every reachable state** is transparent. -/
theorem transparent_run
    (hdef : Along VmState.step (fun s a => DefineApart s a ∧ Orderly s a)
      (VmState.boot ram garbage file mem files) acts)
    (h : run VmState.step (VmState.boot ram garbage file mem files) acts = .ok s) :
    Transparent files s (flatRun acts) := by
  refine run_inv_history VmState.step flatStep (fun _ _ _ _ hs hC ht => transparent_step hs hC.1 hC.2 ht)
    ?_ hdef h
  exact ⟨coherent_boot, rfl, fun _ _ _ _ hP => (by cases hP),
    fun _ _ hP => (by cases hP), fun _ _ hP => (by cases hP)⟩

/-- What a load reads in a transparent state. -/
theorem TransparentAt.load {m : Flat} (h : TransparentAt files s as m)
    (hs : s.step (.load as a b) = .ok s') : b = m.byte files a := by
  cases vmStep_of_step hs with
  | @load as P a pa b hcur hP hrun hst ha hpa hb =>
    have hno : ∀ {r : Activation}, P.stack.head? ≠ some r := by simp [hst]
    obtain ⟨e, he, hp, hin, rfl⟩ :=
      h.coherent.entry_of_at hcur hP hrun (fun r hr => absurd hr hno) hpa
    rw [← hb, (h.shows _ hP hrun).frame e he hin (fun r hr => absurd hr hno) _ (pageOffset_lt a),
      hp, pageFrame_add_pageOffset (lt_trans ha (by decide))]

end Run

end Os161
