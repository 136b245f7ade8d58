import Os161.Lib.Chain
import Os161.Vm.Blocks

set_option autoImplicit false

/-!
# The page table as a linked list

The blocks of an address space represent the two lists of the model of `addrspace.c`, and the
pointer into the page table that a segment has is the first entry of its chain.

* `AsHeap.Represents`: the lists that the blocks hold.
* `AsHeap.Represents.define`: a new region on both levels.
* `AsHeap.Represents.findSegment_eq`, `walk_eq`, `ptUpdate_eq`: the searches on both levels.
* **`pageTable_blocks`**: after any sequence of calls the page table is the concatenation of one block
  for each segment, and `vm_fault` and `pt_update` find the same entry of a page.
-/

namespace Os161

open Loop Transition

/-- The link of a `pt_entry`. -/
def AsHeap.pteNext (h : AsHeap) (p : ℕ) : ℕ := (h.pte p).next

/-- The link of a `segment_entry`. -/
def AsHeap.segNext (h : AsHeap) (s : ℕ) : ℕ := (h.seg s).next

/-- A block holds an entry of the page table. -/
def PteCell.Holds (c : PteCell) (e : PtEntry) : Prop :=
  c.page = e.page ∧ c.frame = e.frame ∧ c.inMem = e.inMem ∧ c.inSwap = e.inSwap

/-- A block holds a segment, apart from its pointers. -/
def SegCell.Holds (c : SegCell) (s : SegmentEntry) : Prop :=
  c.firstAddr = s.firstAddr ∧ c.npages = s.npages ∧ c.size = s.size ∧ c.offset = s.offset

/-- **The blocks represent an address space.** -/
structure AsHeap.Represents (h : AsHeap) (as : Addrspace) : Prop where
  ptChain : Chain h.pteNext 0 h.pt (as.pt.map PtEntry.addr)
  pte : ∀ e ∈ as.pt, (h.pte e.addr).Holds e
  segChain : Chain h.segNext 0 h.segments (as.segments.map SegmentEntry.addr)
  seg : ∀ s ∈ as.segments, (h.seg s.addr).Holds s
  first : ∀ s ∈ as.segments, s.firstPtEntry ≤ as.pt.length ∧
    (as.pt.drop (firstPte as s)).head?.map PtEntry.addr = some (h.seg s.addr).firstPtEntry
  perm : ∀ s ∈ as.segments, (h.seg s.addr).permission = s.permissionAddr ∧
    h.perm s.permissionAddr = ⟨s.read, s.write, s.exec⟩
  pteLive : ∀ e ∈ as.pt, e.addr ∈ h.live
  segLive : ∀ s ∈ as.segments, s.addr ∈ h.live ∧ s.permissionAddr ∈ h.live

section Create

variable {answer page : ℕ → ℕ} {c n i : ℕ} {ends : Option (ℕ × ℕ)} {h h' h₀ : AsHeap}

/-- A store to the link of one entry. -/
theorem pteNext_update {p q : ℕ} :
    ({ h with pte := Function.update h.pte p { h.pte p with next := q } } : AsHeap).pteNext =
      Function.update h.pteNext p q := by
  funext x
  unfold AsHeap.pteNext
  by_cases e : x = p
  · subst e
    simp
  · simp [Function.update_of_ne e]

/-- The addresses that `kmalloc` returned for the first `i` pages. -/
def pageAddrs (answer : ℕ → ℕ) (c i : ℕ) : List ℕ := (List.range i).map fun j => answer (c + j)

/-- The first `i` entries are there, and what was there before is as it was. -/
structure Filled (answer page : ℕ → ℕ) (h₀ : AsHeap) (i : ℕ) (h : AsHeap) : Prop where
  calls : h.calls = h₀.calls + i
  heads : h.pt = h₀.pt ∧ h.segments = h₀.segments
  seg : h.seg = h₀.seg
  perm : h.perm = h₀.perm
  live : ∀ p, p ∈ h.live ↔ p ∈ h₀.live ∨ p ∈ pageAddrs answer h₀.calls i
  fresh : ∀ p ∈ pageAddrs answer h₀.calls i, p ∉ h₀.live
  old : ∀ p ∈ h₀.live, h.pte p = h₀.pte p
  pte : ∀ j < i, (h.pte (answer (h₀.calls + j))).Holds (ptCreate (answer (h₀.calls + j)) (page j))

/-- `page_head` and `page_tail` are the ends of the chain of the first `i` entries. -/
def Ends (answer : ℕ → ℕ) (c i : ℕ) (h : AsHeap) : Option (ℕ × ℕ) → Prop
  | none => i = 0
  | some (head, tail) => Chain h.pteNext 0 head (pageAddrs answer c i) ∧
      ∃ l, pageAddrs answer c i = l ++ [tail]

theorem pageAddrs_succ : pageAddrs answer c (i + 1) = pageAddrs answer c i ++ [answer (c + i)] := by
  unfold pageAddrs
  rw [List.range_succ, List.map_append, List.map_singleton]

theorem mem_pageAddrs {p : ℕ} : p ∈ pageAddrs answer c i ↔ ∃ j < i, p = answer (c + j) := by
  unfold pageAddrs
  simp only [List.mem_map, List.mem_range]
  exact exists_congr fun j => and_congr_right fun _ => eq_comm

/-- Before the loop. -/
theorem Filled.zero : Filled answer page h₀ 0 h₀ where
  calls := rfl
  heads := ⟨rfl, rfl⟩
  seg := rfl
  perm := rfl
  live p := by simp [pageAddrs]
  fresh p hp := by cases hp
  old _ _ := rfl
  pte j hj := absurd hj (Nat.not_lt_zero j)

/-- The entry of one more page, in a new block. -/
theorem Filled.create (hb : Filled answer page h₀ i h) {p : ℕ}
    (hp : AsHeap.ptCreate answer (page i) h = .ok (p, h')) :
    Filled answer page h₀ (i + 1) h' ∧ p ≠ 0 ∧ p = answer (h₀.calls + i) ∧
      p ∉ pageAddrs answer h₀.calls i ∧ h'.pteNext p = 0 ∧
        ∀ q ≠ p, h'.pteNext q = h.pteNext q := by
  obtain ⟨hpe, hp0, hlive, rfl⟩ := ptCreate_ok hp
  rw [hb.calls] at hpe
  have hnew : p ∉ h₀.live ∧ p ∉ pageAddrs answer h₀.calls i :=
    ⟨fun hm => hlive ((hb.live p).mpr (.inl hm)), fun hm => hlive ((hb.live p).mpr (.inr hm))⟩
  have hmem : ∀ q, q ∈ pageAddrs answer h₀.calls (i + 1) ↔
      q ∈ pageAddrs answer h₀.calls i ∨ q = p := by
    intro q
    rw [pageAddrs_succ, List.mem_append, List.mem_singleton, hpe]
  refine ⟨⟨?_, hb.heads, hb.seg, hb.perm, fun q => ?_, fun q hq => ?_, fun q hq => ?_,
    fun j hj => ?_⟩, hp0, hpe, hnew.2, ?_, fun q hq => ?_⟩
  · change h.calls + 1 = _
    rw [hb.calls, Nat.add_assoc]
  · change q ∈ p :: h.live ↔ _
    rw [List.mem_cons, hb.live, hmem]
    tauto
  · rcases (hmem q).mp hq with hq | rfl
    · exact hb.fresh q hq
    · exact hnew.1
  · have hne : q ≠ p := fun e => hnew.1 (e ▸ hq)
    exact (Function.update_of_ne hne _ _).trans (hb.old q hq)
  · by_cases e : j = i
    · subst e
      rw [← hpe]
      change (Function.update h.pte p _ p).Holds _
      rw [Function.update_self]
      exact ⟨rfl, rfl, rfl, rfl⟩
    · have hne : answer (h₀.calls + j) ≠ p := fun e' =>
        hnew.2 (mem_pageAddrs.mpr ⟨j, by omega, e'.symm⟩)
      change (Function.update h.pte p _ _).Holds _
      rw [Function.update_of_ne hne]
      exact hb.pte j (by omega)
  · simp [AsHeap.pteNext]
  · simp [AsHeap.pteNext, Function.update_of_ne hq]

/-- The link of one of the new entries changes. -/
theorem Filled.setNext (hb : Filled answer page h₀ i h) {t : ℕ} (q : ℕ)
    (ht : t ∈ pageAddrs answer h₀.calls i) :
    Filled answer page h₀ i
      { h with pte := Function.update h.pte t { h.pte t with next := q } } := by
  refine ⟨hb.calls, hb.heads, hb.seg, hb.perm, hb.live, hb.fresh, fun p hp => ?_, fun j hj => ?_⟩
  · have hne : p ≠ t := fun e => hb.fresh t ht (e ▸ hp)
    exact (Function.update_of_ne hne _ _).trans (hb.old p hp)
  · change (Function.update h.pte t _ _).Holds _
    by_cases e : answer (h₀.calls + j) = t
    · have := hb.pte j hj
      rw [e] at this ⊢
      rw [Function.update_self]
      exact this
    · rw [Function.update_of_ne e]
      exact hb.pte j hj

/-- The new entry is linked behind the last one. -/
theorem Ends.append {head tail p : ℕ} (he : Ends answer c i h (some (head, tail)))
    (hp : p ≠ 0) (hpe : p = answer (c + i)) (hnew : p ∉ pageAddrs answer c i)
    (hnext : h'.pteNext p = 0) (hold : ∀ q ≠ p, h'.pteNext q = h.pteNext q) :
    tail ∈ pageAddrs answer c i ∧ Ends answer c (i + 1)
      { h' with pte := Function.update h'.pte tail { h'.pte tail with next := p } }
      (some (head, p)) := by
  obtain ⟨hchain, l, hl⟩ := he
  have htail : tail ∈ pageAddrs answer c i := by
    rw [hl]
    exact List.mem_append_right l (List.mem_singleton.mpr rfl)
  have hchain' : Chain h'.pteNext 0 head (l ++ [tail]) := by
    rw [← hl]
    exact hchain.congr fun q hq => hold q fun e => hnew (e ▸ hq)
  have hne : tail ∉ [p] := fun hm => hnew (List.mem_singleton.mp hm ▸ htail)
  have hone : Chain h'.pteNext 0 p [p] := ⟨rfl, hp, hnext⟩
  refine ⟨htail, ?_, pageAddrs answer c i, by rw [pageAddrs_succ, hpe]⟩
  rw [pteNext_update, pageAddrs_succ, ← hpe, hl, List.append_assoc]
  exact hchain'.link hone hne

variable (ends) in
/-- **The loop** builds one entry after the other. -/
theorem Filled.createPages {res : Option (Option (ℕ × ℕ))} (hb : Filled answer page h₀ i h)
    (he : Ends answer h₀.calls i h ends)
    (hc : AsHeap.createPages answer page n i ends h = .ok (res, h')) :
    ∃ ends', res = some ends' ∧ Filled answer page h₀ (i + n) h' ∧
      Ends answer h₀.calls (i + n) h' ends' := by
  induction n generalizing i ends h with
  | zero =>
    cases hc
    exact ⟨ends, rfl, hb, he⟩
  | succ n ih =>
    rw [AsHeap.createPages] at hc
    obtain ⟨p, h₁, h1, hc⟩ := AsM.bind_eq_ok.mp hc
    obtain ⟨hb', hp0, hpe, hnew, hnext, hold⟩ := hb.create h1
    rw [if_neg hp0] at hc
    rw [← Nat.add_assoc, Nat.add_right_comm]
    cases ends with
    | none =>
      obtain rfl : i = 0 := he
      have hone : pageAddrs answer h₀.calls 1 = [p] := by rw [hpe]; rfl
      refine ih (some (p, p)) hb' ⟨?_, [], ?_⟩ hc
      · rw [hone]
        exact ⟨rfl, hp0, hnext⟩
      · exact hone
    | some ends =>
      obtain ⟨head, tail⟩ := ends
      obtain ⟨_, h₂, h2, hc⟩ := AsM.bind_eq_ok.mp hc
      obtain ⟨-, rfl⟩ := storePte_ok h2
      obtain ⟨htail, he'⟩ := Ends.append he hp0 hpe hnew hnext hold
      have htail' : tail ∈ pageAddrs answer h₀.calls (i + 1) := by
        rw [pageAddrs_succ]
        exact List.mem_append_left _ htail
      exact ih (some (head, p)) (hb'.setNext p htail') he' hc

end Create

/-! ## A new region -/

section Define

variable {answer page : ℕ → ℕ} {vaddr npages segsz r w x : ℕ} {offset : ℤ} {h h' : AsHeap}
  {as : Addrspace} {res : DefineResult}

/-- **What a call does to the blocks**: two new ones for the segment, one for each page, and the rest
stays as it is. -/
structure Defined (answer page : ℕ → ℕ) (vaddr : ℕ) (offset : ℤ) (npages segsz r w x : ℕ)
    (h h' : AsHeap) : Prop where
  pos : 0 < npages
  sgm : answer h.calls ≠ 0 ∧ answer h.calls ∉ h.live ∧ answer (h.calls + 1) ∉ h.live
  live : ∀ p, p ∈ h'.live ↔ p ∈ h.live ∨ p = answer h.calls ∨ p = answer (h.calls + 1) ∨
    p ∈ pageAddrs answer (h.calls + 2) npages
  segments : h'.segments = answer h.calls
  seg : h'.seg (answer h.calls) =
    ⟨vaddr, npages, segsz, offset, answer (h.calls + 1), h'.pt, h.segments⟩
  perm : h'.perm (answer (h.calls + 1)) = ⟨r, w, x⟩
  pte : ∀ j < npages, (h'.pte (answer (h.calls + 2 + j))).Holds
    (ptCreate (answer (h.calls + 2 + j)) (page j))
  head : (pageAddrs answer (h.calls + 2) npages).head? = some h'.pt
  chain : ∀ l, (∀ p ∈ l, p ∈ h.live) → Chain h.pteNext 0 h.pt l →
    Chain h'.pteNext 0 h'.pt (pageAddrs answer (h.calls + 2) npages ++ l)
  old : ∀ p ∈ h.live, h'.pte p = h.pte p ∧ h'.seg p = h.seg p ∧ h'.perm p = h.perm p

theorem define_cases
    (hd : AsHeap.define answer vaddr offset npages segsz r w x page h = .ok (res, h')) :
    Defined answer page vaddr offset npages segsz r w x h h' := by
  unfold AsHeap.define at hd
  obtain ⟨_, _, hget, hd⟩ := AsM.bind_eq_ok.mp hd
  cases hget
  obtain ⟨sgm, h₁, h1, hd⟩ := AsM.bind_eq_ok.mp hd
  obtain ⟨permission, rfl, rfl, hs0, -, hs, hp, rfl⟩ := sgmCreate_ok h1
  rw [if_neg hs0] at hd
  obtain ⟨_, _, hset, hd⟩ := AsM.bind_eq_ok.mp hd
  cases hset
  obtain ⟨pages, h₃, h3, hd⟩ := AsM.bind_eq_ok.mp hd
  obtain ⟨ends, rfl, hb, he⟩ := Filled.zero.createPages none rfl h3
  rw [Nat.zero_add] at hb he
  match ends, he, hd with
  | some (head, tail), ⟨hchain, l, hl⟩, hd =>
    obtain ⟨_, _, h4, hd⟩ := AsM.bind_eq_ok.mp hd
    obtain ⟨-, rfl⟩ := storeSeg_ok h4
    obtain ⟨_, _, hget, hd⟩ := AsM.bind_eq_ok.mp hd
    cases hget
    obtain ⟨_, _, h5, hd⟩ := AsM.bind_eq_ok.mp hd
    obtain ⟨-, rfl⟩ := storePte_ok h5
    obtain ⟨_, _, h6, hd⟩ := AsM.bind_eq_ok.mp hd
    cases h6
    cases hd
    have htail : tail ∈ pageAddrs answer (h.calls + 2) npages := by
      rw [hl]
      exact List.mem_append_right l (List.mem_singleton.mpr rfl)
    have hb' := hb.setNext h₃.pt htail
    have hlive : ∀ p ∈ h.live, p ∈ answer (h.calls + 1) :: answer h.calls :: h.live :=
      fun p hp => List.mem_cons_of_mem _ (List.mem_cons_of_mem _ hp)
    refine ⟨?_, ⟨hs0, hs, hp⟩, fun p => ?_, hb.heads.2, ?_, ?_, hb'.pte, ?_, fun l' hl' hold => ?_,
      fun p hp' => ⟨hb'.old p (hlive p hp'), ?_, ?_⟩⟩
    · by_contra hn
      obtain rfl : npages = 0 := by omega
      simp [pageAddrs] at hl
    · refine (hb.live p).trans ?_
      simp only [List.mem_cons]
      tauto
    · refine (Function.update_self _ _ _).trans ?_
      rw [hb.seg]
      simp only [Function.update_self]
    · change h₃.perm _ = _
      rw [hb.perm]
      exact Function.update_self _ _ _
    · cases hc : pageAddrs answer (h.calls + 2) npages with
      | nil => rw [hc] at htail; cases htail
      | cons a l' =>
        rw [hc] at hchain
        exact congrArg some hchain.1.symm
    · have hmoved : Chain h₃.pteNext 0 h₃.pt l' := by
        rw [hb.heads.1]
        refine hold.congr fun p hp' => ?_
        unfold AsHeap.pteNext
        rw [hb.old p (hlive p (hl' p hp'))]
      have hnot : tail ∉ l' := fun hm => hb.fresh tail htail (hlive tail (hl' tail hm))
      change Chain (AsHeap.pteNext { h₃ with
        pte := Function.update h₃.pte tail { h₃.pte tail with next := h₃.pt } }) 0 head _
      rw [pteNext_update, hl, List.append_assoc]
      exact Chain.link (hl ▸ hchain) hmoved hnot
    · have hne : p ≠ answer h.calls := fun e => hs (e ▸ hp')
      refine (Function.update_of_ne hne _ _).trans ?_
      rw [hb.seg]
      exact Function.update_of_ne hne _ _
    · have hne : p ≠ answer (h.calls + 1) := fun e => hp (e ▸ hp')
      change h₃.perm p = _
      rw [hb.perm]
      exact Function.update_of_ne hne _ _

/-- The address space with one more region, as the model of lists has it. -/
def Addrspace.define (as : Addrspace) (b : RegionBlocks) (vaddr : ℕ) (offset : ℤ)
    (npages segsz r w x : ℕ) (page : ℕ → ℕ) : Addrspace :=
  { as with
    pt := ((List.range npages).map fun i => ptCreate (b.page i) (page i)) ++ as.pt
    segments := ⟨b.segment, b.permission, vaddr, npages, segsz, offset, r, w, x,
      npages + as.pt.length⟩ :: as.segments }

/-- The blocks that a call gets when the next call of `kmalloc` is number `c`. -/
def regionBlocks (answer : ℕ → ℕ) (c : ℕ) : RegionBlocks :=
  ⟨answer c, answer (c + 1), fun i => answer (c + 2 + i)⟩

/-- **A new region** on the level of pointers is the one of the model of lists. -/
theorem AsHeap.Represents.define (hr : h.Represents as)
    (hd : Defined answer page vaddr offset npages segsz r w x h h') :
    h'.Represents
      (as.define (regionBlocks answer h.calls) vaddr offset npages segsz r w x page) := by
  have haddrs : ((List.range npages).map fun i =>
      Os161.ptCreate ((regionBlocks answer h.calls).page i) (page i)).map PtEntry.addr =
        pageAddrs answer (h.calls + 2) npages := by
    simp [pageAddrs, Os161.ptCreate, regionBlocks, Function.comp_def]
  have hlength : (as.define (regionBlocks answer h.calls) vaddr offset npages segsz r w x
      page).pt.length = npages + as.pt.length := by simp [Addrspace.define]
  refine ⟨?_, fun e he => ?_, ?_, fun s hm => ?_, fun s hm => ?_, fun s hm => ?_, fun e he => ?_,
    fun s hm => ?_⟩
  · change Chain _ 0 h'.pt (List.map PtEntry.addr (_ ++ _))
    rw [List.map_append, haddrs]
    refine hd.chain _ (fun p hp => ?_) hr.ptChain
    obtain ⟨e, he, rfl⟩ := List.mem_map.mp hp
    exact hr.pteLive e he
  · rcases List.mem_append.mp he with he | he
    · obtain ⟨j, hj, rfl⟩ := List.mem_map.mp he
      exact hd.pte j (List.mem_range.mp hj)
    · rw [(hd.old _ (hr.pteLive e he)).1]
      exact hr.pte e he
  · have hsegs : Chain h'.segNext 0 h.segments (as.segments.map SegmentEntry.addr) := by
      refine hr.segChain.congr fun s hm => ?_
      obtain ⟨t, ht, rfl⟩ := List.mem_map.mp hm
      unfold AsHeap.segNext
      rw [(hd.old _ (hr.segLive t ht).1).2.1]
    refine ⟨hd.segments, hd.sgm.1, ?_⟩
    have hnext : h'.segNext (answer h.calls) = h.segments := by rw [AsHeap.segNext, hd.seg]
    exact hnext.symm ▸ hsegs
  · rcases List.mem_cons.mp hm with rfl | hm
    · have := hd.seg
      exact this.symm ▸ ⟨rfl, rfl, rfl, rfl⟩
    · rw [(hd.old _ (hr.segLive s hm).1).2.1]
      exact hr.seg s hm
  · rcases List.mem_cons.mp hm with hs | hm
    · have haddr : s.addr = answer h.calls := by rw [hs]; rfl
      have hf : s.firstPtEntry = npages + as.pt.length := by rw [hs]
      refine ⟨le_of_eq (hf.trans hlength.symm), ?_⟩
      rw [firstPte, hf, hlength, Nat.sub_self, List.drop_zero, ← List.head?_map, haddr, hd.seg]
      change (List.map PtEntry.addr (_ ++ _)).head? = _
      rw [List.map_append, haddrs, List.head?_append, hd.head]
      rfl
    · obtain ⟨hle, hfirst⟩ := hr.first s hm
      refine ⟨by rw [hlength]; omega, ?_⟩
      have hdrop : firstPte (as.define (regionBlocks answer h.calls) vaddr offset npages segsz r w x
          page) s = ((List.range npages).map fun i =>
            Os161.ptCreate ((regionBlocks answer h.calls).page i) (page i)).length +
              firstPte as s := by
        rw [firstPte, hlength, firstPte, List.length_map, List.length_range]
        omega
      rw [(hd.old _ (hr.segLive s hm).1).2.1, ← hfirst, hdrop]
      exact congrArg (fun l => l.head?.map PtEntry.addr) (List.drop_length_add_append _)
  · rcases List.mem_cons.mp hm with rfl | hm
    · exact ⟨congrArg SegCell.permission hd.seg, hd.perm⟩
    · rw [(hd.old _ (hr.segLive s hm).1).2.1, (hd.old _ (hr.segLive s hm).2).2.2]
      exact hr.perm s hm
  · rw [hd.live]
    rcases List.mem_append.mp he with he | he
    · refine .inr (.inr (.inr ?_))
      rw [← haddrs]
      exact List.mem_map_of_mem he
    · exact .inl (hr.pteLive e he)
  · rw [hd.live, hd.live]
    rcases List.mem_cons.mp hm with rfl | hm
    · exact ⟨.inr (.inl rfl), .inr (.inr (.inl rfl))⟩
    · exact ⟨.inl (hr.segLive s hm).1, .inl (hr.segLive s hm).2⟩

end Define

/-! ## The searches -/

section Search

variable {h : AsHeap} {fa n p s : ℕ} {pt : List PtEntry} {segs : List SegmentEntry}

/-- The segment search goes through the list. -/
theorem AsHeap.findSegment_eq (hc : Chain h.segNext 0 s (segs.map SegmentEntry.addr))
    (hs : ∀ t ∈ segs, (h.seg t.addr).Holds t) (hn : segs.length < n) :
    h.findSegment fa n s = .ok ((segs.find? (·.covers fa)).map SegmentEntry.addr) := by
  induction segs generalizing s n with
  | nil =>
    cases n with
    | zero => exact absurd hn (lt_irrefl 0)
    | succ n =>
      rw [findSegment, if_pos (Chain.nil_iff.mp hc)]
      rfl
  | cons t segs ih =>
    cases n with
    | zero => exact absurd hn (Nat.not_lt_zero _)
    | succ n =>
      obtain ⟨rfl, h0, hrest⟩ := Chain.cons_iff.mp hc
      obtain ⟨h₁, h₂, -, -⟩ := hs t List.mem_cons_self
      rw [findSegment, if_neg h0, h₁, h₂, List.find?_cons]
      by_cases hcov : t.firstAddr ≤ fa ∧ fa < wadd t.firstAddr (t.npages * pageSize)
      · rw [if_pos hcov]
        simp [SegmentEntry.covers, hcov.1, hcov.2]
      · have hf : t.covers fa = false := by simpa [SegmentEntry.covers] using hcov
        rw [if_neg hcov, hf]
        exact ih hrest (fun t ht => hs t (List.mem_cons_of_mem _ ht))
          (by simpa using hn)

/-- The page search goes through the first `n` entries. -/
theorem AsHeap.walk_eq (hc : Chain h.pteNext 0 p (pt.map PtEntry.addr))
    (hpte : ∀ e ∈ pt, (h.pte e.addr).Holds e) (hn : n ≤ pt.length) :
    h.walk fa n p = .ok (((pt.take n).find? fun e => e.page = fa).map PtEntry.addr) := by
  induction n generalizing p pt with
  | zero => rfl
  | succ n ih =>
    cases pt with
    | nil => exact absurd hn (Nat.not_succ_le_zero n)
    | cons e pt =>
      obtain ⟨rfl, h0, hrest⟩ := Chain.cons_iff.mp hc
      have hp := (hpte e List.mem_cons_self).1
      rw [walk, if_neg h0, hp, List.take_succ_cons, List.find?_cons]
      by_cases he : e.page = fa
      · rw [if_pos he]
        simp [he]
      · rw [if_neg he]
        simp only [he, decide_false]
        exact ih hrest (fun e he => hpte e (List.mem_cons_of_mem _ he)) (by simpa using hn)

/-- **`pt_update`** marks the first entry of the page. -/
theorem AsHeap.ptUpdate_eq (hc : Chain h.pteNext 0 p (pt.map PtEntry.addr))
    (hpte : ∀ e ∈ pt, (h.pte e.addr).Holds e) (hn : pt.length < n) :
    AsHeap.ptUpdate fa n p h = .ok (match pt.find? fun e => e.page = fa with
      | some e => { h with
          pte := Function.update h.pte e.addr
            { h.pte e.addr with inMem := false, inSwap := true, frame := 0 } }
      | none => h) := by
  induction pt generalizing p n with
  | nil =>
    cases n with
    | zero => exact absurd hn (lt_irrefl 0)
    | succ n =>
      rw [AsHeap.ptUpdate, if_pos (Chain.nil_iff.mp hc)]
      rfl
  | cons e pt ih =>
    cases n with
    | zero => exact absurd hn (Nat.not_lt_zero _)
    | succ n =>
      obtain ⟨rfl, h0, hrest⟩ := Chain.cons_iff.mp hc
      have hp := (hpte e List.mem_cons_self).1
      rw [AsHeap.ptUpdate, if_neg h0, hp, List.find?_cons]
      by_cases he : e.page = fa
      · rw [if_pos he]
        simp [he]
      · rw [if_neg he]
        simp only [he, decide_false]
        exact ih hrest (fun e he => hpte e (List.mem_cons_of_mem _ he)) (by simpa using hn)

/-- The chain from the entry that a segment points to. -/
theorem Chain.drop {next : ℕ → ℕ} {k q : ℕ} (hc : Chain next 0 p (pt.map PtEntry.addr))
    (hq : (pt.drop k).head?.map PtEntry.addr = some q) :
    Chain next 0 q ((pt.drop k).map PtEntry.addr) := by
  cases hd : pt.drop k with
  | nil =>
    rw [hd] at hq
    cases hq
  | cons e rest =>
    rw [hd] at hq
    obtain rfl := Option.some.inj hq
    rw [← List.take_append_drop k pt, hd, List.map_append] at hc
    exact hc.suffix

end Search

/-! ## The blocks of the segments -/

/-- A segment below `USERSPACETOP`. -/
structure SegmentEntry.Placed (seg : SegmentEntry) : Prop where
  pos : 0 < seg.npages
  dvd : pageSize ∣ seg.firstAddr
  le : seg.firstAddr + seg.npages * pageSize ≤ userspaceTop
  stack : seg.offset < 0 → seg.firstAddr + seg.npages * pageSize = userStack

/-- The entries from the one that the segment points to, as many as it has pages. -/
def SegmentEntry.block (pt : List PtEntry) (seg : SegmentEntry) : List PtEntry :=
  (pt.drop (pt.length - seg.firstPtEntry)).take seg.npages

/-- **The page table is the chains of the segments**, one after the other. -/
inductive Concat : List SegmentEntry → List PtEntry → Prop
  | nil : Concat [] []
  | cons {seg : SegmentEntry} {segs : List SegmentEntry} {new pt : List PtEntry}
      (hseg : seg.Placed) (hnew : new.map PtEntry.page = seg.chain)
      (hfirst : seg.firstPtEntry = seg.npages + pt.length) (h : Concat segs pt) :
      Concat (seg :: segs) (new ++ pt)

section Blocks

variable {seg : SegmentEntry} {segs : List SegmentEntry} {pt new : List PtEntry} {v : ℕ}

/-- The segment search accepts the addresses of the segment. -/
theorem SegmentEntry.Placed.covers_iff (h : seg.Placed) :
    seg.covers v = true ↔ seg.firstAddr ≤ v ∧ v < seg.firstAddr + seg.npages * pageSize := by
  have hle := h.le
  rw [SegmentEntry.covers, wadd_of_lt (by unfold userspaceTop kseg0 wordSize at *; omega)]
  simp

/-- The page of an address of the segment. -/
theorem SegmentEntry.Placed.pageFrame_bounds (h : seg.Placed) (hv : v < wordSize)
    (hlo : seg.firstAddr ≤ v) (hhi : v < seg.firstAddr + seg.npages * pageSize) :
    seg.firstAddr ≤ pageFrame v ∧ pageFrame v < seg.firstAddr + seg.npages * pageSize := by
  obtain ⟨b, hb⟩ := h.dvd
  have hle := pageFrame_le hv
  have hsplit := pageFrame_add_pageOffset hv
  have hlt : pageOffset v < pageSize := Nat.mod_lt _ pageSize_pos
  obtain ⟨q, hq⟩ := pageFrame_dvd v
  rw [hq] at hsplit hle ⊢
  rw [hb] at hlo hhi ⊢
  unfold pageSize at *
  omega

/-- The pages of the chain are those of the segment. -/
theorem SegmentEntry.Placed.mem_chain_iff (h : seg.Placed) :
    v ∈ seg.chain ↔
      pageSize ∣ v ∧ seg.firstAddr ≤ v ∧ v < seg.firstAddr + seg.npages * pageSize := by
  obtain ⟨b, hb⟩ := h.dvd
  have hle := h.le
  have hstack := h.stack
  unfold chain
  simp only [List.mem_map, List.mem_range]
  generalize seg.npages = n at *
  generalize seg.firstAddr = f at *
  subst hb
  constructor
  · rintro ⟨i, hi, rfl⟩
    split_ifs with hs
    · have := hstack hs
      refine ⟨⟨b + n - (i + 1), ?_⟩, ?_, ?_⟩ <;> unfold pageSize at * <;> omega
    · rw [wadd_of_lt (by unfold pageSize userspaceTop kseg0 wordSize at *; omega)]
      refine ⟨⟨b + i, ?_⟩, ?_, ?_⟩ <;> unfold pageSize at * <;> omega
  · rintro ⟨⟨m, rfl⟩, hlo, hhi⟩
    by_cases hs : seg.offset < 0
    · have := hstack hs
      refine ⟨b + n - 1 - m, ?_, ?_⟩
      · unfold pageSize at *
        omega
      · rw [if_pos hs]
        unfold pageSize at *
        omega
    · refine ⟨m - b, ?_, ?_⟩
      · unfold pageSize at *
        omega
      · rw [if_neg hs, wadd_of_lt (by unfold pageSize userspaceTop kseg0 wordSize at *; omega)]
        unfold pageSize at *
        omega

/-- No page is in the chain twice. -/
theorem SegmentEntry.Placed.nodup_chain (h : seg.Placed) : seg.chain.Nodup := by
  have hle := h.le
  have hstack := h.stack
  refine List.Nodup.map_on (fun i hi j hj hij => ?_) List.nodup_range
  rw [List.mem_range] at hi hj
  split_ifs at hij with hs
  · have := hstack hs
    unfold pageSize at *
    omega
  · rw [wadd_of_lt (by unfold pageSize userspaceTop kseg0 wordSize at *; omega),
      wadd_of_lt (by unfold pageSize userspaceTop kseg0 wordSize at *; omega)] at hij
    unfold pageSize at *
    omega

theorem SegmentEntry.block_append (hle : seg.firstPtEntry ≤ pt.length) :
    seg.block (new ++ pt) = seg.block pt := by
  unfold block
  rw [List.length_append, Nat.add_sub_assoc hle, List.drop_length_add_append]

/-- The block of the newest segment. -/
theorem SegmentEntry.block_head (hnew : new.map PtEntry.page = seg.chain)
    (hfirst : seg.firstPtEntry = seg.npages + pt.length) : seg.block (new ++ pt) = new := by
  have hlen : new.length = seg.npages := by
    rw [← List.length_map PtEntry.page, hnew, SegmentEntry.length_chain]
  unfold block
  rw [List.length_append, hlen, hfirst, Nat.sub_self, List.drop_zero, ← hlen,
    List.take_left]

/-- **Each segment has its block.** -/
theorem Concat.block (h : Concat segs pt) (hm : seg ∈ segs) :
    seg.Placed ∧ (seg.block pt).map PtEntry.page = seg.chain ∧ seg.firstPtEntry ≤ pt.length ∧
      seg.npages ≤ seg.firstPtEntry := by
  induction h with
  | nil => cases hm
  | @cons seg' segs new pt hseg hnew hfirst h ih =>
    have hlen : new.length = seg'.npages := by
      rw [← List.length_map PtEntry.page, hnew, SegmentEntry.length_chain]
    rcases List.mem_cons.mp hm with rfl | hm
    · refine ⟨hseg, ?_, ?_, ?_⟩
      · rw [SegmentEntry.block_head hnew hfirst]
        exact hnew
      · rw [List.length_append, hlen, hfirst]
      · omega
    · obtain ⟨hp, hb, hle, hn⟩ := ih hm
      refine ⟨hp, ?_, ?_, hn⟩
      · rw [SegmentEntry.block_append hle]
        exact hb
      · rw [List.length_append]
        omega

/-- **The blocks make up the page table.** -/
theorem Concat.flatMap_block (h : Concat segs pt) : segs.flatMap (·.block pt) = pt := by
  induction h with
  | nil => rfl
  | @cons seg segs new pt hseg hnew hfirst h ih =>
    have hrest : segs.flatMap (·.block (new ++ pt)) = segs.flatMap (·.block pt) :=
      List.flatMap_congr fun s hs => SegmentEntry.block_append (h.block hs).2.2.1
    rw [List.flatMap_cons, SegmentEntry.block_head hnew hfirst, hrest, ih]

/-- **The two searches agree**: the entry of a page in the block of the first segment that covers it
is the first one in the whole page table. -/
theorem Concat.find (h : Concat segs pt) (hd : pageSize ∣ v)
    (hf : segs.find? (·.covers v) = some seg) :
    ∃ e ∈ seg.block pt, e.page = v ∧ (seg.block pt).find? (fun e => e.page = v) = some e ∧
      pt.find? (fun e => e.page = v) = some e := by
  induction h with
  | nil => cases hf
  | @cons seg' segs new pt hseg hnew hfirst h ih =>
    rw [List.find?_cons] at hf
    split at hf
    · next hc =>
      cases hf
      have hmem : v ∈ new.map PtEntry.page := by
        rw [hnew, hseg.mem_chain_iff]
        exact ⟨hd, hseg.covers_iff.mp hc⟩
      rw [SegmentEntry.block_head hnew hfirst]
      cases hfind : new.find? fun e => e.page = v with
      | none =>
        obtain ⟨e, he, hev⟩ := List.mem_map.mp hmem
        exact absurd (by simpa using hev) (List.find?_eq_none.mp hfind e he)
      | some e =>
        refine ⟨e, List.mem_of_find?_eq_some hfind, by simpa using List.find?_some hfind, rfl, ?_⟩
        rw [List.find?_append, hfind]
        rfl
    · next hc =>
      obtain ⟨e, he, hev, hb, hpt⟩ := ih hf
      have hle := (h.block (List.mem_of_find?_eq_some hf)).2.2.1
      rw [SegmentEntry.block_append hle]
      refine ⟨e, he, hev, hb, ?_⟩
      have hnone : new.find? (fun e => e.page = v) = none := by
        refine List.find?_eq_none.mpr fun e he hev => ?_
        have hmem : v ∈ new.map PtEntry.page :=
          List.mem_map.mpr ⟨e, he, by simpa using hev⟩
        rw [hnew, hseg.mem_chain_iff] at hmem
        rw [hseg.covers_iff.mpr hmem.2] at hc
        cases hc
      rw [List.find?_append, hnone]
      exact hpt

end Blocks

/-! ## Sequences of calls -/

/-- A call that adds a region. -/
inductive RegionCall
  | region (vaddr offset sz readable writeable executable : ℕ)
  | stack

namespace RegionCall

/-- The code of the call. -/
def exec (answer : ℕ → ℕ) : RegionCall → AsM DefineResult
  | .region vaddr offset sz r w x => AsHeap.asDefineRegion answer vaddr offset sz r w x
  | .stack => AsHeap.asDefineStack answer

/-- The region has a byte and lies in user space. -/
def Valid : RegionCall → Prop
  | .region vaddr _ sz _ _ _ => 1 ≤ sz ∧ vaddr + sz ≤ userspaceTop
  | .stack => True

/-- `v` is a page of the region. -/
def HasPage (v : ℕ) : RegionCall → Prop
  | .region vaddr _ sz _ _ _ => pageSize ∣ v ∧ v < vaddr + sz ∧ vaddr < v + pageSize
  | .stack => pageSize ∣ v ∧ userStack - stackPages * pageSize ≤ v ∧ v < userStack

/-- The segment records the region. -/
def Records : RegionCall → SegmentEntry → Prop
  | .region vaddr offset sz r w x, s => s.firstAddr = pageFrame vaddr ∧
      s.npages = regionPages vaddr sz ∧ s.size = sz ∧ s.offset = offset ∧ s.read = r ∧
        s.write = w ∧ s.exec = x
  | .stack, s => s.firstAddr = userStack - stackPages * pageSize ∧ s.npages = stackPages ∧
      s.size = 0 ∧ s.offset = -1 ∧ s.read = 4 ∧ s.write = 2 ∧ s.exec = 0

end RegionCall

/-- A call that succeeds. -/
def AsHeap.call (answer : ℕ → ℕ) (h : AsHeap) (c : RegionCall) : Except Stop AsHeap := do
  let (res, h') ← c.exec answer h
  require (res = .done)
  return h'

section Calls

variable {answer : ℕ → ℕ} {h h' h₀ : AsHeap} {as : Addrspace} {c : RegionCall}
  {calls made : List RegionCall} {seg : SegmentEntry} {v : ℕ}

/-- The pages of a region. -/
theorem regionPages_bounds {vaddr sz : ℕ} (hsz : 1 ≤ sz) (hle : vaddr + sz ≤ userspaceTop) :
    pageFrame vaddr + regionPages vaddr sz * pageSize ≤ userspaceTop ∧
      vaddr + sz ≤ pageFrame vaddr + regionPages vaddr sz * pageSize ∧
        pageFrame vaddr + regionPages vaddr sz * pageSize < vaddr + sz + pageSize := by
  have hlt : pageOffset vaddr < pageSize := Nat.mod_lt _ pageSize_pos
  have hsplit := pageFrame_add_pageOffset (a := vaddr)
    (by unfold userspaceTop kseg0 wordSize at *; omega)
  rw [regionPages_eq (by unfold userspaceTop kseg0 wordSize pageSize at *; omega)]
  obtain ⟨q, hq⟩ := pageFrame_dvd vaddr
  rw [hq] at hsplit ⊢
  unfold userspaceTop kseg0 pageSize at *
  omega

/-- A valid call gives a segment below `USERSPACETOP`, with the pages of its region. -/
theorem RegionCall.Records.placed (h : c.Records seg) (hv : c.Valid) :
    seg.Placed ∧ ∀ v, v ∈ seg.chain ↔ c.HasPage v := by
  have hpages : seg.Placed ∧ (seg.Placed → ∀ v, (pageSize ∣ v ∧ seg.firstAddr ≤ v ∧
      v < seg.firstAddr + seg.npages * pageSize) ↔ c.HasPage v) := by
    cases c with
    | region vaddr offset sz r w x =>
      obtain ⟨hf, hn, -, ho, -⟩ := h
      obtain ⟨hsz, hle⟩ := hv
      obtain ⟨hend, hlo, hhi⟩ := regionPages_bounds hsz hle
      have hlt : pageOffset vaddr < pageSize := Nat.mod_lt _ pageSize_pos
      have hsplit := pageFrame_add_pageOffset (a := vaddr)
        (by unfold userspaceTop kseg0 wordSize at *; omega)
      have hpos : 0 < regionPages vaddr sz := by
        by_contra h0
        rw [Nat.eq_zero_of_not_pos h0] at hlo
        omega
      refine ⟨⟨hn ▸ hpos, hf ▸ pageFrame_dvd vaddr, by rw [hf, hn]; exact hend,
        fun hs => by omega⟩, fun hp v => ?_⟩
      change _ ↔ pageSize ∣ v ∧ v < vaddr + sz ∧ vaddr < v + pageSize
      rw [hf, hn]
      refine and_congr_right fun hd => ?_
      obtain ⟨m, rfl⟩ := hd
      obtain ⟨q, hq⟩ := pageFrame_dvd vaddr
      rw [hq] at hsplit hlo hhi ⊢
      unfold pageSize at *
      omega
    | stack =>
      obtain ⟨hf, hn, -, ho, -⟩ := h
      have hle : stackPages * pageSize ≤ userStack := by decide
      refine ⟨⟨hn ▸ by decide, hf ▸ by decide, by rw [hf, hn]; decide,
        fun _ => by rw [hf, hn]; omega⟩, fun _ v => ?_⟩
      change _ ↔ pageSize ∣ v ∧ userStack - stackPages * pageSize ≤ v ∧ v < userStack
      rw [hf, hn, Nat.sub_add_cancel hle]
  exact ⟨hpages.1, fun v => hpages.1.mem_chain_iff.trans (hpages.2 hpages.1 v)⟩

/-- **One more call.** -/
theorem AsHeap.call_cases (hr : h.Represents as) (hcat : Concat as.segments as.pt)
    (hc : h.call answer c = .ok h') (hv : c.Valid) :
    ∃ as' seg, h'.Represents as' ∧ Concat as'.segments as'.pt ∧
      as'.segments = seg :: as.segments ∧ c.Records seg := by
  obtain ⟨⟨res, h₁⟩, hd, hrest⟩ := bind_eq_ok.mp hc
  obtain ⟨-, hrest⟩ := require_bind_ok.mp hrest
  cases hrest
  cases c with
  | region vaddr offset sz r w x =>
    have hdef := define_cases hd
    refine ⟨_, _, hr.define hdef, ?_, rfl, ⟨rfl, rfl, rfl, rfl, rfl, rfl, rfl⟩⟩
    refine .cons (RegionCall.Records.placed (c := .region vaddr offset sz r w x)
      ⟨rfl, rfl, rfl, rfl, rfl, rfl, rfl⟩ hv).1 ?_ rfl hcat
    have hneg : ¬ (offset : ℤ) < 0 := by omega
    simp [SegmentEntry.chain, Os161.ptCreate, Function.comp_def, hneg]
  | stack =>
    have hdef := define_cases hd
    refine ⟨_, _, hr.define hdef, ?_, rfl, ⟨rfl, rfl, rfl, rfl, rfl, rfl, rfl⟩⟩
    refine .cons (RegionCall.Records.placed (c := .stack)
      ⟨rfl, rfl, rfl, rfl, rfl, rfl, rfl⟩ hv).1 ?_ rfl hcat
    simp [SegmentEntry.chain, Os161.ptCreate, Function.comp_def]

/-- **Any sequence of calls** leaves blocks that represent the concatenation of the regions. -/
theorem AsHeap.run_calls (hr : h.Represents as) (hcat : Concat as.segments as.pt)
    (hmade : List.Forall₂ RegionCall.Records made as.segments) (hv : ∀ c ∈ calls, c.Valid)
    (hrun : run (AsHeap.call answer) h calls = .ok h') :
    ∃ as', h'.Represents as' ∧ Concat as'.segments as'.pt ∧
      List.Forall₂ RegionCall.Records (calls.reverse ++ made) as'.segments := by
  induction calls generalizing h as made with
  | nil =>
    cases hrun
    exact ⟨as, hr, hcat, hmade⟩
  | cons c calls ih =>
    rw [run_cons, bind_eq_ok] at hrun
    obtain ⟨h₁, hc, hrun⟩ := hrun
    obtain ⟨as', seg, hr', hcat', hsegs, hrec⟩ :=
      h.call_cases hr hcat hc (hv c List.mem_cons_self)
    have hmade' : List.Forall₂ RegionCall.Records (c :: made) as'.segments :=
      hsegs ▸ .cons hrec hmade
    obtain ⟨as'', h''⟩ := ih hr' hcat' hmade' (fun c hc => hv c (List.mem_cons_of_mem _ hc)) hrun
    rw [List.reverse_cons, List.append_assoc]
    exact ⟨as'', h''⟩

/-- The walk of a block finds the entry of each of its pages. -/
theorem AsHeap.Represents.walk_block (hr : h.Represents as) (hcat : Concat as.segments as.pt)
    (hm : seg ∈ as.segments) :
    h.walk v seg.npages (h.seg seg.addr).firstPtEntry =
      .ok (((seg.block as.pt).find? fun e => e.page = v).map PtEntry.addr) := by
  obtain ⟨-, -, hle, hn⟩ := hcat.block hm
  refine AsHeap.walk_eq (Chain.drop hr.ptChain (hr.first seg hm).2)
    (fun e he => hr.pte e (List.mem_of_mem_drop he)) ?_
  rw [List.length_drop]
  omega

/-- The search of `vm_fault` for a page of a segment finds the entry that `pt_update` marks. -/
theorem AsHeap.Represents.faultEntry_eq (hr : h.Represents as)
    (hcat : Concat as.segments as.pt) (hm : seg ∈ as.segments) (hc : v ∈ seg.chain) :
    ∃ e ∈ as.pt, e.page = v ∧ (as.pt.find? fun e => e.page = v) = some e ∧
      ∀ n, as.segments.length < n → h.faultEntry n v = .ok (some e.addr) := by
  have hplaced := (hcat.block hm).1
  obtain ⟨hd, hcov⟩ := hplaced.mem_chain_iff.mp hc
  cases hf : as.segments.find? (·.covers v) with
  | none => exact absurd (hplaced.covers_iff.mpr hcov) (List.find?_eq_none.mp hf seg hm)
  | some s =>
    have hs := List.mem_of_find?_eq_some hf
    obtain ⟨e, he, hev, hb, hpt⟩ := hcat.find hd hf
    refine ⟨e, List.mem_of_find?_eq_some hpt, hev, hpt, fun n hn => ?_⟩
    unfold faultEntry
    rw [h.findSegment_eq hr.segChain hr.seg hn, hf]
    change h.walk v (h.seg s.addr).npages (h.seg s.addr).firstPtEntry = _
    rw [(hr.seg s hs).2.1, hr.walk_block hcat hs, hb]
    rfl

/-- **The page table after any sequence of calls.** There is one block of entries for each call, in
the order of the segments, that has each page of the region once, and to which the segment points;
the page table is acyclic and consists of these blocks. For every address of a segment the walk of
its block finds the entry of the page, the search of `vm_fault` finds an entry of the page, and it is
the one that `pt_update` marks. -/
theorem pageTable_blocks (hpt : h₀.pt = 0) (hsegs : h₀.segments = 0)
    (hv : ∀ c ∈ calls, c.Valid) (hrun : run (AsHeap.call answer) h₀ calls = .ok h) :
    ∃ blocks : List (ℕ × List ℕ),
      Chain h.segNext 0 h.segments (blocks.map Prod.fst) ∧
      Chain h.pteNext 0 h.pt (blocks.flatMap Prod.snd) ∧ (blocks.flatMap Prod.snd).Nodup ∧
      List.Forall₂ (fun c b => ∀ v, v ∈ b.2.map (fun p => (h.pte p).page) ↔ c.HasPage v)
        calls.reverse blocks ∧
      ∀ b ∈ blocks, b.2.length = (h.seg b.1).npages ∧
        b.2.head? = some (h.seg b.1).firstPtEntry ∧ (b.2.map fun p => (h.pte p).page).Nodup ∧
        ∀ a, (h.seg b.1).firstAddr ≤ a →
          a < (h.seg b.1).firstAddr + (h.seg b.1).npages * pageSize →
          (∃ p ∈ b.2, (h.pte p).page = pageFrame a ∧
            h.walk (pageFrame a) (h.seg b.1).npages (h.seg b.1).firstPtEntry = .ok (some p)) ∧
          ∃ p, (h.pte p).page = pageFrame a ∧
            (∀ n, blocks.length < n → h.faultEntry n (pageFrame a) = .ok (some p)) ∧
            ∀ n, (blocks.flatMap Prod.snd).length < n →
              AsHeap.ptUpdate (pageFrame a) n h.pt h = .ok { h with
                pte := Function.update h.pte p
                  { h.pte p with inMem := false, inSwap := true, frame := 0 } } := by
  have hr₀ : h₀.Represents asCreate := by
    refine ⟨hpt, ?_, hsegs, ?_, ?_, ?_, ?_, ?_⟩ <;> intro _ hm <;> cases hm
  obtain ⟨as, hr, hcat, hrec⟩ := AsHeap.run_calls hr₀ .nil .nil hv hrun
  rw [List.append_nil] at hrec
  have hpt : as.segments.flatMap (fun s => (s.block as.pt).map PtEntry.addr) =
      as.pt.map PtEntry.addr := by
    rw [← List.map_flatMap, hcat.flatMap_block]
  have hpages : ∀ s ∈ as.segments, ((s.block as.pt).map PtEntry.addr).map
      (fun p => (h.pte p).page) = s.chain := by
    intro s hs
    rw [← (hcat.block hs).2.1, List.map_map]
    refine List.map_congr_left fun e he => (hr.pte e ?_).1
    exact List.mem_of_mem_drop (List.mem_of_mem_take he)
  refine ⟨as.segments.map fun s => (s.addr, (s.block as.pt).map PtEntry.addr), ?_, ?_, ?_, ?_,
    fun b hb => ?_⟩
  · rw [List.map_map]
    exact hr.segChain
  · rw [List.flatMap_map, hpt]
    exact hr.ptChain
  · rw [List.flatMap_map, hpt]
    exact hr.ptChain.nodup
  · rw [List.forall₂_map_right_iff]
    refine List.forall₂_iff_get.mpr ⟨hrec.length_eq, fun i hi hj v => ?_⟩
    have hs := List.get_mem as.segments ⟨i, hj⟩
    have hc := hv _ (List.mem_reverse.mp (List.get_mem calls.reverse ⟨i, hi⟩))
    rw [hpages _ hs]
    exact ((hrec.get hi hj).placed hc).2 v
  · obtain ⟨s, hs, rfl⟩ := List.mem_map.mp hb
    obtain ⟨hplaced, hblock, hle, hn⟩ := hcat.block hs
    obtain ⟨h₁, h₂, -, -⟩ := hr.seg s hs
    refine ⟨?_, ?_, ?_, fun a hlo hhi => ?_⟩
    · rw [h₂, ← SegmentEntry.length_chain, ← hblock, List.length_map, List.length_map]
    · have hpos : 0 < s.npages := hplaced.pos
      have hfirst := (hr.first s hs).2
      rw [List.head?_map, SegmentEntry.block, List.head?_take, if_neg (Nat.ne_of_gt hpos)]
      exact hfirst
    · rw [hpages s hs]
      exact hplaced.nodup_chain
    · simp only [h₁, h₂] at hlo hhi ⊢
      have hlt : a < wordSize := by
        have := hplaced.le
        unfold userspaceTop kseg0 wordSize at *
        omega
      have hmem : pageFrame a ∈ s.chain := hplaced.mem_chain_iff.mpr
        ⟨pageFrame_dvd a, hplaced.pageFrame_bounds hlt hlo hhi⟩
      refine ⟨?_, ?_⟩
      · rw [hr.walk_block hcat hs]
        cases hf : (s.block as.pt).find? fun e => e.page = pageFrame a with
        | none =>
          rw [← hblock] at hmem
          obtain ⟨e, he, hev⟩ := List.mem_map.mp hmem
          exact absurd (by simpa using hev) (List.find?_eq_none.mp hf e he)
        | some e =>
          have he := List.mem_of_find?_eq_some hf
          have hpt := List.mem_of_mem_drop (List.mem_of_mem_take he)
          refine ⟨e.addr, List.mem_map_of_mem he, ?_, rfl⟩
          rw [(hr.pte e hpt).1]
          simpa using List.find?_some hf
      · obtain ⟨e, he, hev, hfind, hfault⟩ := hr.faultEntry_eq hcat hs hmem
        refine ⟨e.addr, (hr.pte e he).1.trans hev, fun n hn => hfault n (by simpa using hn),
          fun n hn => ?_⟩
        rw [List.flatMap_map, hpt, List.length_map] at hn
        rw [AsHeap.ptUpdate_eq hr.ptChain hr.pte hn, hfind]

/-- Two regions that share a page, and the stack. -/
def sharedCalls : List RegionCall :=
  [.region 0x400000 0 0x1800 4 0 1, .region 0x401900 0x1900 0x20 4 2 0, .stack]

theorem pageTable_blocks_shared :
    ∃ h, run (AsHeap.call blockAddr) emptyHeap sharedCalls = .ok h ∧ h.calls = 27 ∧
      ∃ blocks : List (ℕ × List ℕ), Chain h.segNext 0 h.segments (blocks.map Prod.fst) ∧
        Chain h.pteNext 0 h.pt (blocks.flatMap Prod.snd) := by
  obtain ⟨h, hrun, hcalls⟩ := exists_ok_of_toOption
    (x := run (AsHeap.call blockAddr) emptyHeap sharedCalls) (f := AsHeap.calls) (b := 27)
    (by decide +kernel)
  have hv : ∀ c ∈ sharedCalls, c.Valid := by
    intro c hc
    simp only [sharedCalls, List.mem_cons, List.not_mem_nil, or_false] at hc
    rcases hc with rfl | rfl | rfl
    · exact ⟨by decide, by decide⟩
    · exact ⟨by decide, by decide⟩
    · trivial
  obtain ⟨blocks, h₁, h₂, -⟩ := pageTable_blocks (rfl : emptyHeap.pt = 0) rfl hv hrun
  exact ⟨h, hrun, hcalls, blocks, h₁, h₂⟩

end Calls

end Os161
