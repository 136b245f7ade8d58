import Os161.Vm.Fault

set_option autoImplicit false

/-!
# Recycled memory does not leak

Two runs from memories with different contents, in which the kernel also writes different bytes to
memory that is no user frame: what the frames held when the coremap handed them out. Everything but
the memory is the same in both runs, and the memory is the same wherever a frame of an address space
has been overwritten, which a completed fault has done.

* `Pc.unwritten`: the part of the frame of a fault that still has its old bytes.
* `Alike`: the relation between the two runs.
* **`alike_step`**: one step keeps it; **`no_leak`**: and a whole run.
-/

namespace Os161

open Transition

/-- The frame that a fault overwrites, and how many of its bytes are done. -/
def Pc.unwritten : Pc → Option (ℕ × ℕ)
  | .swapInFind paddr | .swapInRead paddr _ => some (paddr, 0)
  | .fill .zero paddr _ _ _ done | .fill .swap paddr _ _ _ done => some (paddr, done)
  | _ => none

/-- The byte at offset `o` of frame `k` is none of the old ones. -/
def Settled (s : VmState) (as : AsId) (k o : ℕ) : Prop :=
  ∀ P act done, s.procs as = some P → P.stack.head? = some act →
    act.pc.unwritten = some (s.cms.cm.ram.frameAddr k, done) → o < done

/-- The state with another memory. -/
def VmState.withMem (s : VmState) (m : ℕ → UInt8) : VmState := { s with mem := m }

/-- **The memory `m` is as good as that of the state**: they agree on the settled bytes of the user
frames. -/
def Alike (s : VmState) (m : ℕ → UInt8) : Prop :=
  ∀ as k o, s.cms.Holds as k → o < pageSize → Settled s as k o →
    m (s.cms.cm.ram.frameAddr k + o) = s.mem (s.cms.cm.ram.frameAddr k + o)

/-- The same action, up to the bytes that the kernel writes outside the user frames. -/
inductive VmAction.Same : VmAction → VmAction → Prop
  | refl (a : VmAction) : Same a a
  | kwrite (pa : ℕ) (b b' : UInt8) : Same (.kwrite pa b) (.kwrite pa b')

section WithMem

variable {s s' : VmState} {as : AsId} {P : Proc} {act : Activation} {rest : List Activation}
  {a n : ℕ} (m : ℕ → UInt8)

theorem map_bind {α β γ : Type} {x : Except Stop α} {f : α → Except Stop β} {g : β → γ} :
    (x >>= f).map g = x >>= fun a => (f a).map g := by
  cases x <;> rfl

theorem map_ite {α β : Type} {c : Prop} [Decidable c] {x y : Except Stop α} {g : α → β} :
    (if c then x else y).map g = if c then x.map g else y.map g := by
  split_ifs <;> rfl

@[simp] theorem withMem_procs : (s.withMem m).procs = s.procs := rfl

/-- Outside a copy, a fault does not look at the memory. -/
theorem go_withMem (hacc : act.access = none) :
    (s.withMem m).go as P act rest n = (s.go as P act rest n).map fun t => t.withMem m := by
  unfold Activation.access at hacc
  unfold VmState.go
  cases hpc : act.pc with
  | swapOutCopy | fill => simp [hpc] at hacc
  | alloc =>
    change _ = Except.map _ (if (s.cms.alloc act.page as).1 = 0 then _ else _)
    rw [map_ite]
    rfl
  | evict =>
    simp only [VmState.withMem]
    cases s.cms.evict as <;> rfl
  | swapOutFind victim =>
    simp only [VmState.withMem]
    cases swapOutFind s.sw as victim <;> rfl
  | swapInFind =>
    simp only [VmState.withMem]
    cases swapInFind s.sw as act.page <;> rfl
  | elfRead =>
    simp only [VmState.withMem]
    cases P.space.elfFile <;> rfl
  | _ => rfl

theorem fault_withMem :
    (s.withMem m).fault as P a = (s.fault as P a).map fun t => t.withMem m := by
  have hefault : (s.withMem m).efault as P = (s.efault as P).map fun t => t.withMem m := by
    unfold VmState.efault
    cases P.stack with
    | nil => rfl
    | cons act rest =>
      cases hpc : act.pc with
      | fill what => cases what <;> (simp only [hpc]; rfl)
      | _ =>
        simp only [hpc]
        rfl
  unfold VmState.fault
  simp only
  split
  · exact hefault
  · split
    · exact hefault
    · split
      · rfl
      · rw [map_ite]
        rfl

/-- What an action that does not access the memory does with another one. -/
theorem step_withMem {act : VmAction} (h : s.step act = .ok s')
    (hmem : match act with
      | .load _ _ _ | .store _ _ _ | .kwrite _ _ => False
      | .go as _ => ∀ P act rest, s.procs as = some P → P.stack = act :: rest → act.access = none
      | _ => True) :
    (s.withMem m).step act = .ok (s'.withMem m) := by
  have hmap : (s.withMem m).step act = (s.step act).map fun t => t.withMem m := by
    cases act with
    | load | store | kwrite => exact hmem.elim
    | defineRegion as vaddr offset sz r w x b =>
      simp only [VmState.step, map_bind]
      refine bind_congr fun P => bind_congr fun _ => ?_
      cases asDefineRegion P.space vaddr offset sz r w x b <;> rfl
    | exitSwap as | exitDone as =>
      simp only [VmState.step, withMem_procs]
      cases s.procs as with
      | none => rfl
      | some P =>
        simp only [map_bind]
        rfl
    | switch as =>
      cases as with
      | none => rfl
      | some as =>
        simp only [VmState.step, map_bind]
        rfl
    | fault as a =>
      simp only [VmState.step, map_bind]
      exact bind_congr fun P => bind_congr fun _ => fault_withMem m
    | go as n =>
      simp only [VmState.step, map_bind]
      change (s.current as >>= _) = _
      cases hcur : s.current as with
      | error e => rfl
      | ok P =>
        simp only [bind, Except.bind]
        cases hst : P.stack with
        | nil => rfl
        | cons act rest => exact go_withMem m (hmem P act rest (current_eq_ok hcur).2.1 hst)
    | _ =>
      simp only [VmState.step, map_bind]
      rfl
  rw [hmap, h]
  rfl

end WithMem

/-! ## The bytes that are settled -/

section Settled

variable {s s' : VmState} {as : AsId} {P : Proc} {act : Activation} {rest : List Activation}
  {k o : ℕ} {a : VmAction}

/-- A fault that overwrites nothing leaves all bytes settled. -/
theorem settled_of_unwritten (hP : s.procs as = some P)
    (h : ∀ act, P.stack.head? = some act → act.pc.unwritten = none) : Settled s as k o := by
  intro Q act done hQ hhead hun
  obtain rfl := Option.some.inj (hP.symm.trans hQ)
  rw [h act hhead] at hun
  cases hun

/-- **What is settled after the step of a fault** was settled before, where the step writes nothing. -/
theorem settled_of_goStep (hi : CmInv s.cms) (hP : s.procs as = some P) (hst : P.stack = act :: rest)
    (hf : FrameOk s.cms as act.page act.pc.phase)
    (hfill : ∀ what paddr dst len buf done, act.pc ≠ .fill what paddr dst len buf done)
    (hgo : GoStep s as P act rest s') (hk : s'.cms.Holds as k) (hset : Settled s' as k o) :
    s.cms.Holds as k ∧ Settled s as k o := by
  have hhead : ∀ {r}, P.stack.head? = some r → r = act := fun {r} hr => by
    rw [hst] at hr
    exact (Option.some.inj hr).symm
  have hnone : act.pc.unwritten = none → Settled s as k o := fun hun =>
    settled_of_unwritten hP fun r hr => by rw [hhead hr]; exact hun
  cases hgo with
  | @full hpc hs =>
    refine ⟨?_, hnone (by rw [hpc]; rfl)⟩
    rcases CmSys.tag_alloc hi (Prod.eta (s.cms.alloc act.page as)).symm with
      ⟨-, he, -⟩ | ⟨k, -, hne, -⟩
    · change (s.cms.alloc act.page as).2.Holds as k at hk
      rwa [he] at hk
    · exact absurd hs hne
  | @alloc paddr cms hpc hs hne =>
    refine ⟨?_, hnone (by rw [hpc]; rfl)⟩
    rcases CmSys.tag_alloc hi hs with ⟨h0, -⟩ | ⟨k', rfl, -, hno, hram, hpend, htag⟩
    · exact absurd h0 hne
    change cms.Holds as k at hk
    rcases hk with ⟨v, st, ht⟩ | hp
    · rw [htag] at ht
      split_ifs at ht with hkk
      · -- the new frame, none of whose bytes is settled
        refine absurd (hset _ _ 0 (setProc_self _ _ _) rfl ?_) (Nat.not_lt_zero o)
        change (act.filled _).unwritten = some (cms.cm.ram.frameAddr k, 0)
        rw [hram, hkk]
        unfold Activation.filled
        split_ifs <;> rfl
      · exact .inl ⟨v, st, ht⟩
    · exact .inr (by rw [← hpend]; exact hp)
  | @evict victim paddr pos cms hpc hs =>
    refine ⟨?_, hnone (by rw [hpc]; rfl)⟩
    obtain ⟨-, hold, -, hpend, htag⟩ := CmSys.tag_evict hi hs
    change cms.Holds as k at hk
    rcases hk with ⟨v, st, ht⟩ | hp
    · rw [htag] at ht
      split_ifs at ht
      exact .inl ⟨v, st, ht⟩
    · rw [hpend] at hp
      rcases List.mem_cons.mp hp with he | hp
      · cases he
        exact .inl ⟨_, _, hold⟩
      · exact .inr hp
  | @update victim pos paddr hpc =>
    refine ⟨?_, hnone (by rw [hpc]; rfl)⟩
    rw [hpc] at hf
    change (s.cms.updateVaddr as pos act.page).Holds as k at hk
    rcases hk with ⟨v, st, ht⟩ | hp
    · rw [CmSys.tag_updateVaddr _ hi hf.2] at ht
      split_ifs at ht with hkk
      · rw [hkk]
        exact .inr hf.2
      · exact .inl ⟨v, st, ht⟩
    · exact .inr ((CmSys.mem_pending_updateVaddr k).mp hp).1
  | @setClean paddr hpc =>
    refine ⟨?_, hnone (by rw [hpc]; rfl)⟩
    rw [hpc] at hf
    obtain ⟨k', rfl, ht'⟩ := hf
    change (s.cms.setClean (s.cms.cm.ram.frameAddr k')).Holds as k at hk
    rcases hk with ⟨v, st, ht⟩ | hp
    · rw [CmSys.tag_setClean ht'] at ht
      split_ifs at ht with hkk
      · rw [hkk]
        exact .inl ⟨_, _, ht'⟩
      · exact .inl ⟨v, st, ht⟩
    · exact .inr hp
  | swapInFind hpc | swapInRead hpc =>
    refine ⟨hk, fun Q r done hQ hr hun => ?_⟩
    obtain rfl := Option.some.inj (hP.symm.trans hQ)
    rw [hhead hr, hpc] at hun
    exact hset _ _ done (setProc_self _ _ _) rfl hun
  | fill hpc => exact absurd hpc (hfill _ _ _ _ _ _)
  | swapOutFind hpc | swapOutCopy hpc | swapOutCopied hpc | swapOutWrite hpc | replace hpc
  | elfRead hpc | map hpc => exact ⟨hk, hnone (by rw [hpc]; rfl)⟩

/-- The same for all actions. -/
theorem settled_of_vmStep (hown : Own s) (hok' : ∀ P, s'.procs as = some P → P.stage = .running →
      FaultOk s' as P) (hstep : VmStep s a s')
    (hfill : ∀ n, a = .go as n → ∀ P act rest, s.procs as = some P → P.stack = act :: rest →
      ∀ what paddr dst len buf done, act.pc ≠ .fill what paddr dst len buf done)
    (hk : s'.cms.Holds as k) (hset : Settled s' as k o) :
    s.cms.Holds as k ∧ Settled s as k o := by
  by_cases hact : a.actor = some as
  swap
  · have hag := agree_of_vmStep hown hstep hact
    refine ⟨hag.holds.mp hk, fun P act done hP hhead hun => ?_⟩
    exact hset P act done (hag.procs.trans hP) hhead (by rw [hag.ram]; exact hun)
  have hidle : ∀ {P : Proc}, s.procs as = some P → P.stack = [] → Settled s as k o :=
    fun {P} hP hst => settled_of_unwritten hP fun act hhead => by
      rw [hst] at hhead
      cases hhead
  cases hstep with
  | create hnone =>
    cases hact
    exact absurd hk ((hown.gone _ hnone).1 k)
  | defineRegion hP _ hst | defineStack hP _ hst | completeLoad hP _ hst =>
    cases hact
    exact ⟨hk, hidle hP hst⟩
  | exitCm hcur hP hrun hst =>
    cases hact
    refine ⟨?_, hidle hP hst⟩
    rcases hk with ⟨v, st, ht⟩ | hp
    · exact .inl ⟨v, st, ((CmSys.tag_asfree hown.cm).mp ht).1⟩
    · exact .inr hp
  | exitSwap hcur hP hstage =>
    cases hact
    exact ⟨hk, hidle hP ((hown.proc _ _ hP).idle (by rw [hstage]; decide)).1⟩
  | exitDone hcur hP hstage =>
    cases hact
    exact ⟨hk, hidle hP ((hown.proc _ _ hP).idle (by rw [hstage]; decide)).1⟩
  | fault hcur hP hrun ha hmiss hst hf =>
    cases hact
    cases hf with
    | reload => exact ⟨hk, hset⟩
    | push =>
      refine ⟨hk, settled_of_unwritten hP fun act hhead => ?_⟩
      obtain ⟨paddr, dst, len, buf, done, hpc⟩ :=
        (hok' _ (setProc_self _ _ _) hrun).tail act (List.mem_of_mem_head? hhead)
      rw [hpc]
      rfl
    | abort hst' hpc =>
      refine ⟨hk, settled_of_unwritten hP fun act hhead => ?_⟩
      rw [hst'] at hhead
      obtain rfl := Option.some.inj hhead
      rw [hpc]
      rfl
  | @go _ P act rest n _ hcur hP hrun hst hgo =>
    cases hact
    exact settled_of_goStep hown.cm hP hst
      ((hown.proc _ _ hP).acts act (by rw [hst]; exact List.mem_cons_self))
      (hfill n rfl P act rest hP hst) hgo hk hset
  | _ => cases hact

end Settled

/-! ## Copies -/

section Copies

variable {s s' : VmState} {as : AsId} {P : Proc} {act : Activation} {rest : List Activation}
  {m : ℕ → UInt8} {pa n x k o : ℕ} {g : ℕ → UInt8}

theorem poke_of_lt (h : x < n) : poke m pa n g (pa + x) = g x := by
  unfold poke
  rw [if_pos ⟨Nat.le_add_right _ _, by omega⟩, Nat.add_sub_cancel_left]

theorem poke_of_not (h : ¬ (pa ≤ x ∧ x < pa + n)) : poke m pa n g x = m x := if_neg h

theorem poke_congr {g' : ℕ → UInt8} (h : ∀ i < n, g i = g' i) : poke m pa n g = poke m pa n g' := by
  funext y
  unfold poke
  split_ifs with hy
  · exact h _ (by omega)
  · rfl

/-- Bytes that are equal stay equal when both memories are written. -/
theorem poke_eq_poke {m' : ℕ → UInt8} (h : m x = m' x) : poke m pa n g x = poke m' pa n g x := by
  unfold poke
  rw [h]

/-- The bytes of a held frame at an address that the TLB translates. -/
theorem held_of_at (hown : Own s) (hcur : s.cur = some as) (hP : s.procs as = some P)
    (hrun : P.stage = .running) {a : ℕ} (h : s.At a pa) :
    ∃ k, pa = s.cms.cm.ram.frameAddr k + pageOffset a ∧ s.cms.Holds as k := by
  obtain ⟨f, d, hm, rfl⟩ := h
  obtain ⟨k, rfl, hk⟩ := hown.maps as P hcur hP hrun _ f d hm
  exact ⟨k, rfl, hk⟩

theorem UserPage.pageOffset_add {v : ℕ} (h : UserPage v) (ho : o < pageSize) :
    pageOffset (v + o) = o := by
  obtain ⟨c, rfl⟩ := h.1
  unfold pageOffset
  rw [Nat.mul_add_mod, Nat.mod_eq_of_lt ho]

theorem pageOffset_lt (a : ℕ) : pageOffset a < pageSize := Nat.mod_lt _ pageSize_pos

/-- Swapping out reads the same bytes from both memories. -/
theorem go_swapOutCopy_withMem {victim pos paddr i done : ℕ} {buf : ℕ → UInt8}
    (hpc : act.pc = .swapOutCopy victim pos paddr i buf done)
    (h : s.go as P act rest n = .ok s')
    (hbytes : done + n ≤ pageSize → ∀ pa, s.At (victim + done) pa →
      ∀ o < n, m (pa + o) = s.mem (pa + o)) :
    (s.withMem m).go as P act rest n = .ok (s'.withMem m) := by
  unfold VmState.go at h ⊢
  simp only [hpc] at h ⊢
  obtain ⟨hreq, h⟩ := require_bind_ok.mp h
  obtain ⟨pa, hpa, h⟩ := bind_eq_ok.mp h
  obtain rfl := Except.ok.inj h
  refine require_bind_ok.mpr ⟨hreq, bind_eq_ok.mpr ⟨pa, hpa, ?_⟩⟩
  have hbuf : poke buf done n (fun o => m (pa + o)) = poke buf done n fun o => s.mem (pa + o) :=
    poke_congr (hbytes hreq.2 pa (at_of_translate hpa))
  simp only [show (s.withMem m).mem = m from rfl, hbuf]
  rfl

/-- A copy to user memory writes the same bytes to both memories. -/
theorem go_fill_withMem {what : Fill} {paddr dst len done : ℕ} {buf : ℕ → UInt8}
    (hpc : act.pc = .fill what paddr dst len buf done) (h : s.go as P act rest n = .ok s') :
    ∃ pa, s.At (dst + done) pa ∧ done + n ≤ len ∧ pageOffset (dst + done) + n ≤ pageSize ∧
      s' = ({ s with mem := poke s.mem pa n fun o => buf (done + o) }).setProc as
        (P.goto act rest (act.copying what paddr dst len buf (done + n))) ∧
      (s.withMem m).go as P act rest n =
        .ok (s'.withMem (poke m pa n fun o => buf (done + o))) := by
  unfold VmState.go at h ⊢
  simp only [hpc] at h ⊢
  obtain ⟨hreq, h⟩ := require_bind_ok.mp h
  obtain ⟨pa, hpa, h⟩ := bind_eq_ok.mp h
  obtain rfl := Except.ok.inj h
  exact ⟨pa, at_of_translate hpa, hreq.2.1, hreq.2.2, rfl,
    require_bind_ok.mpr ⟨hreq, bind_eq_ok.mpr ⟨pa, hpa, rfl⟩⟩⟩

/-- What a copy has written is settled: the page that is overwritten is mapped at its frame. -/
theorem alike_fill (hcur : s.cur = some as) (hP : s.procs as = some P) (hst : P.stack = act :: rest) (hok : FaultOk s as P)
    {what : Fill} {paddr dst len done : ℕ} {buf : ℕ → UInt8}
    (hpc : act.pc = .fill what paddr dst len buf done) (hat : s.At (dst + done) pa)
    (hle : done + n ≤ len) (hal : Alike s m) :
    Alike (({ s with mem := poke s.mem pa n g }).setProc as
      (P.goto act rest (act.copying what paddr dst len buf (done + n)))) (poke m pa n g) := by
  intro as' k o hk ho hset
  change s.cms.Holds as' k at hk
  change poke m pa n g (s.cms.cm.ram.frameAddr k + o) = poke s.mem pa n g (s.cms.cm.ram.frameAddr k + o)
  by_cases hrange : pa ≤ s.cms.cm.ram.frameAddr k + o ∧ s.cms.cm.ram.frameAddr k + o < pa + n
  · unfold poke
    rw [if_pos hrange, if_pos hrange]
  refine poke_eq_poke (hal as' k o hk ho fun Q r done' hQ hr hun => ?_)
  by_cases hne : as' = as
  swap
  · exact hset Q r done' ((setProc_of_ne _ _ hne).trans hQ) hr hun
  subst hne
  obtain rfl := Option.some.inj (hP.symm.trans hQ)
  rw [hst] at hr
  obtain rfl := Option.some.inj hr
  -- the fault fills with zeros or from the swap file, and the byte is outside the piece
  have hact : act ∈ P.stack := by rw [hst]; exact List.mem_cons_self
  have hpcok := hok.pc act hact
  have hmaps := hok.maps hcur act (by rw [hst]; rfl)
  have huser := (hok.found act hact).user
  rw [hpc] at hun hpcok hmaps
  have hwhat : what ≠ .elf := by
    rintro rfl
    cases hun
  obtain ⟨rfl, rfl⟩ := hpcok.2.2 hwhat
  have hframe : paddr = s.cms.cm.ram.frameAddr k ∧ done' = done := by
    cases what with
    | zero | swap => exact ⟨(Prod.mk.inj (Option.some.inj hun)).1, (Prod.mk.inj (Option.some.inj hun)).2.symm⟩
    | elf => cases hun
  obtain ⟨rfl, rfl⟩ := hframe
  obtain ⟨f, d, hm, rfl⟩ := hat
  have hlt := hpcok.2.1
  rw [huser.pageFrame_add hlt] at hm
  have hf : f = s.cms.cm.ram.frameAddr k := by
    cases what with
    | zero | swap => exact hmaps f d hm
    | elf => exact absurd rfl hwhat
  rw [hf, huser.pageOffset_add hlt] at hrange
  by_contra hnot
  have hge : done' + n ≤ o := by omega
  by_cases hall : done' + n = pageSize
  · omega
  · have := hset _ _ (done' + n) (setProc_self _ _ _) rfl (by
      change (act.copying what _ _ _ buf (done' + n)).unwritten = _
      unfold Activation.copying
      rw [if_neg hall]
      cases what with
      | zero | swap => rfl
      | elf => exact absurd rfl hwhat)
    omega

end Copies

/-! ## Two runs -/

section Runs

variable {s s' : VmState} {as : AsId} {P : Proc} {m : ℕ → UInt8} {a b : VmAction}

/-- The invariant of both runs: ownership and the faults of all address spaces. -/
structure Sound (s : VmState) : Prop where
  own : Own s
  fault : ∀ as P, s.procs as = some P → P.stage = .running → FaultOk s as P

theorem sound_step (h : Sound s) (hdef : DefineFirst s a) (hs : s.step a = .ok s') : Sound s' :=
  have hstep := vmStep_of_step hs
  ⟨own_step h.own hstep, fun as => faultOk_of_vmStep h.own hstep (.inl hdef) (h.fault as)⟩

/-- A user byte is no byte that the kernel writes. -/
theorem userFrame_of_holds (h : CmInv s.cms) {k o : ℕ} (hk : s.cms.Holds as k) (ho : o < pageSize) :
    s.userFrame (s.cms.cm.ram.frameAddr k + o) = true := by
  have hlive : ⟨s.cms.cm.ram.frameAddr k, 1, some as⟩ ∈ s.cms.live := by
    rcases hk with ⟨v, st, ht⟩ | hp
    · obtain ⟨hlt, has, -⟩ := CmSys.tag_eq_some.mp ht
      exact (h.of_tagged hlt has).1
    · exact h.pending_live as k hp
  refine List.any_eq_true.mpr ⟨_, hlive, ?_⟩
  simpa using ho

/-- What the current process reads at an address is the same in both memories. -/
theorem Alike.at (h : Alike s m) (hown : Own s) (hcur : s.cur = some as)
    (hP : s.procs as = some P) (hrun : P.stage = .running)
    (hun : ∀ act, P.stack.head? = some act → act.pc.unwritten = none) {x pa o : ℕ}
    (hat : s.At x pa) (ho : pageOffset x + o < pageSize) : m (pa + o) = s.mem (pa + o) := by
  obtain ⟨k, rfl, hk⟩ := held_of_at hown hcur hP hrun hat
  rw [Nat.add_assoc]
  exact h as k _ hk ho (settled_of_unwritten hP hun)

/-- A step that leaves the memory alone. -/
theorem Alike.quiet (h : Alike s m) (hs : Sound s) (hs' : Sound s') (hstep : VmStep s a s')
    (hmem : s'.mem = s.mem)
    (hfill : ∀ as n, a = .go as n → ∀ P act rest, s.procs as = some P → P.stack = act :: rest →
      ∀ what paddr dst len buf done, act.pc ≠ .fill what paddr dst len buf done) : Alike s' m := by
  intro as k o hk ho hset
  obtain ⟨hk₀, hset₀⟩ := settled_of_vmStep hs.own (hs'.fault as) hstep (hfill as) hk hset
  have hram : s'.cms.cm.ram = s.cms.cm.ram := by
    have hother : ∃ as', a.actor ≠ some as' := by
      cases ha : a.actor with
      | none => exact ⟨0, by simp⟩
      | some as₀ => exact ⟨as₀ + 1, fun e => Nat.succ_ne_self _ (Option.some.inj e).symm⟩
    obtain ⟨as', ha⟩ := hother
    exact (agree_of_vmStep hs.own hstep ha).ram
  rw [hmem, hram]
  exact h as k o hk₀ ho hset₀

/-- **The step of one run is a step of the other one.** -/
theorem alike_step (hs : Sound s) (hdef : DefineFirst s a) (hal : Alike s m)
    (h : s.step a = .ok s') (hsame : a.Same b) :
    ∃ m', (s.withMem m).step b = .ok (s'.withMem m') ∧ Alike s' m' := by
  have hs' := sound_step hs hdef h
  have hstep := vmStep_of_step h
  cases hsame with
  | kwrite pa b b' =>
    obtain ⟨hno, h⟩ := require_bind_ok.mp h
    obtain rfl := Except.ok.inj h
    refine ⟨poke m pa 1 fun _ => b', require_bind_ok.mpr ⟨hno, rfl⟩, fun as k o hk ho hset => ?_⟩
    change s.cms.Holds as k at hk
    change poke m pa 1 (fun _ => b') (s.cms.cm.ram.frameAddr k + o) =
      poke s.mem pa 1 (fun _ => b) (s.cms.cm.ram.frameAddr k + o)
    have hne : ¬ (pa ≤ s.cms.cm.ram.frameAddr k + o ∧ s.cms.cm.ram.frameAddr k + o < pa + 1) := by
      intro hc
      have huser := userFrame_of_holds hs.own.cm hk ho
      rw [show s.cms.cm.ram.frameAddr k + o = pa by omega, hno] at huser
      cases huser
    refine (poke_of_not hne).trans (Eq.trans ?_ (poke_of_not hne).symm)
    exact hal as k o hk ho hset
  | refl =>
    cases a with
    | load as x b =>
      obtain ⟨P, hP, h⟩ := bind_eq_ok.mp h
      obtain ⟨hreq, h⟩ := require_bind_ok.mp h
      obtain ⟨pa, hpa, h⟩ := bind_eq_ok.mp h
      obtain ⟨hb, h⟩ := require_bind_ok.mp h
      obtain rfl := Except.ok.inj h
      obtain ⟨hcur, hproc, hrun⟩ := current_eq_ok hP
      have hbyte := hal.at (o := 0) hs.own hcur hproc hrun
        (fun act hact => by rw [List.isEmpty_iff.mp hreq.1] at hact; cases hact)
        (at_of_translate hpa) (pageOffset_lt x)
      refine ⟨m, bind_eq_ok.mpr ⟨P, hP, require_bind_ok.mpr ⟨hreq, bind_eq_ok.mpr ⟨pa, hpa,
        require_bind_ok.mpr ⟨?_, rfl⟩⟩⟩⟩, hal⟩
      exact hbyte.trans hb
    | store as x b =>
      obtain ⟨P, hP, h⟩ := bind_eq_ok.mp h
      obtain ⟨hreq, h⟩ := require_bind_ok.mp h
      obtain ⟨pa, hpa, h⟩ := bind_eq_ok.mp h
      obtain rfl := Except.ok.inj h
      refine ⟨poke m pa 1 fun _ => b, bind_eq_ok.mpr ⟨P, hP, require_bind_ok.mpr ⟨hreq,
        bind_eq_ok.mpr ⟨pa, hpa, rfl⟩⟩⟩, fun as' k o hk ho hset => ?_⟩
      exact poke_eq_poke (hal as' k o hk ho hset)
    | kwrite pa b =>
      obtain ⟨hno, h⟩ := require_bind_ok.mp h
      obtain rfl := Except.ok.inj h
      refine ⟨poke m pa 1 fun _ => b, require_bind_ok.mpr ⟨hno, rfl⟩, fun as k o hk ho hset => ?_⟩
      exact poke_eq_poke (hal as k o hk ho hset)
    | go as n =>
      obtain ⟨P, hP, hgo⟩ := bind_eq_ok.mp h
      obtain ⟨hcur, hproc, hrun⟩ := current_eq_ok hP
      cases hst : P.stack with
      | nil => simp only [hst] at hgo; cases hgo
      | cons act rest =>
        simp only [hst] at hgo
        have hback : ∀ {t}, (s.withMem m).go as P act rest n = .ok t →
            (s.withMem m).step (.go as n) = .ok t := fun {t} ht =>
          bind_eq_ok.mpr ⟨P, hP, by simp only [hst]; exact ht⟩
        have hhead : P.stack.head? = some act := by rw [hst]; rfl
        have hown : ∀ {Q r rest'}, s.procs as = some Q → Q.stack = r :: rest' → r = act :=
          fun {Q r rest'} hQ hr => by
            obtain rfl := Option.some.inj (hproc.symm.trans hQ)
            rw [hst] at hr
            exact (List.cons.inj hr).1.symm
        by_cases hfill : ∃ what paddr dst len buf done, act.pc = .fill what paddr dst len buf done
        · obtain ⟨what, paddr, dst, len, buf, done, hpc⟩ := hfill
          obtain ⟨pa, hat, hle, -, rfl, hgo'⟩ := go_fill_withMem (m := m) hpc hgo
          exact ⟨_, hback hgo',
            alike_fill hcur hproc hst (hs.fault as P hproc hrun) hpc hat hle hal⟩
        · push Not at hfill
          have hquiet : s'.mem = s.mem := by
            cases goStep_of_go hgo with
            | fill hpc => exact absurd hpc (hfill _ _ _ _ _ _)
            | _ => rfl
          refine ⟨m, ?_, hal.quiet hs hs' hstep hquiet fun as' n' he Q r rest' hQ hr => ?_⟩
          · by_cases hcopy : ∃ v pos paddr i buf done, act.pc = .swapOutCopy v pos paddr i buf done
            · obtain ⟨v, pos, paddr, i, buf, done, hpc⟩ := hcopy
              refine hback (go_swapOutCopy_withMem hpc hgo fun hle pa hat o ho => ?_)
              have hok := (hs.fault as P hproc hrun).pc act (List.mem_of_mem_head? hhead)
              rw [hpc] at hok
              refine hal.at hs.own hcur hproc hrun (fun r hr => ?_) hat ?_
              · rw [hhead] at hr
                obtain rfl := Option.some.inj hr
                rw [hpc]
                rfl
              · rw [hok.2.2.1.pageOffset_add hok.2.2.2]
                omega
            · push Not at hcopy
              refine step_withMem m h fun Q r rest' hQ hr => ?_
              rw [hown hQ hr]
              unfold Activation.access
              split
              · next hpc => exact absurd hpc (hcopy _ _ _ _ _ _)
              · next hpc => exact absurd hpc (hfill _ _ _ _ _ _)
              · rfl
          · cases he
            rw [hown hQ hr]
            exact hfill
    | fault as x =>
      have hmem : s'.mem = s.mem := by
        cases hstep with
        | fault _ _ _ _ _ _ hf => cases hf <;> rfl
      exact ⟨m, step_withMem m h trivial, hal.quiet hs hs' hstep hmem fun _ _ he => by cases he⟩
    | _ =>
      refine ⟨m, step_withMem m h trivial, hal.quiet hs hs' hstep ?_ fun _ _ he => by cases he⟩
      cases hstep <;> rfl

variable {ram : RamLayout} {garbage : ℕ → CmEntry} {file m₁ m₂ : ℕ → UInt8}
  {files : FileId → List UInt8} {acts acts' : List VmAction}

theorem alike_run (hs : Sound s) (hal : Alike s m) (hacts : List.Forall₂ VmAction.Same acts acts')
    (hdef : Along VmState.step DefineFirst s acts) (h : run VmState.step s acts = .ok s') :
    ∃ m', run VmState.step (s.withMem m) acts' = .ok (s'.withMem m') ∧ Sound s' ∧ Alike s' m' := by
  induction hacts generalizing s m with
  | nil =>
    obtain rfl := Except.ok.inj h
    exact ⟨m, rfl, hs, hal⟩
  | cons hsame _ ih =>
    obtain ⟨u, hu, h⟩ := bind_eq_ok.mp h
    obtain ⟨m', hstep, hal'⟩ := alike_step hs hdef.1 hal hu hsame
    obtain ⟨m'', hrun, hres⟩ := ih (sound_step hs hdef.1 hu) hal' (hdef.2 u hu) h
    exact ⟨m'', bind_eq_ok.mpr ⟨_, hstep, hrun⟩, hres⟩

/-- **No data leaks through recycled memory.** From another memory, and with other bytes written by
the kernel outside the user frames, the same actions are possible with the same bytes read by the
processes. Everything but the memory ends in the same state, and where no fault of an address space is
in progress, every byte of its pages is the same, and every byte that it reaches. -/
theorem no_leak (hdef : Along VmState.step DefineFirst (VmState.boot ram garbage file m₁ files) acts)
    (hacts : List.Forall₂ VmAction.Same acts acts')
    (h : run VmState.step (VmState.boot ram garbage file m₁ files) acts = .ok s) :
    ∃ m, run VmState.step (VmState.boot ram garbage file m₂ files) acts' = .ok (s.withMem m) ∧
      ∀ as P, s.procs as = some P → P.stage = .running → P.stack = [] →
        (∀ e ∈ P.space.pt, e.inMem = true → ∀ o < pageSize,
          m (e.frame + o) = s.mem (e.frame + o)) ∧
        (s.cur = some as → ∀ x pa, s.At x pa → m pa = s.mem pa) := by
  have hboot : Sound (VmState.boot ram garbage file m₁ files) :=
    ⟨own_boot, fun as P hP => by cases hP⟩
  have hal : Alike (VmState.boot ram garbage file m₁ files) m₂ := fun as k o hk =>
    absurd hk ((own_boot.gone as rfl).1 k)
  obtain ⟨m, hrun, hs, hal'⟩ := alike_run hboot hal hacts hdef h
  refine ⟨m, hrun, fun as P hP hstage hst => ⟨fun e he hin o ho => ?_, fun hcur x pa hat => ?_⟩⟩
  · obtain ⟨k, hf, hk⟩ := (hs.own.proc as P hP).pt hstage e he hin
    rw [hf]
    exact hal' as k o hk ho (settled_of_unwritten hP fun act hact => by
      rw [hst] at hact
      cases hact)
  · exact hal'.at (o := 0) hs.own hcur hP hstage (fun act hact => by rw [hst] at hact; cases hact)
      hat (pageOffset_lt x)

/-- Runs without new regions meet the condition. -/
theorem along_defineFirst (h : ∀ a ∈ acts, ∀ s, DefineFirst s a) :
    Along VmState.step DefineFirst s acts := by
  induction acts generalizing s with
  | nil => trivial
  | cons a acts ih =>
    exact ⟨h a List.mem_cons_self s, fun t _ => ih fun b hb => h b (List.mem_cons_of_mem _ hb)⟩

/-- A byte is left in a frame, which becomes a stack page of process 1. -/
def stackFaultRun (b : UInt8) : List VmAction :=
  [.kwrite 0x31010 b, .create 1, .defineStack 1 ⟨0, 0, fun _ => 0⟩, .switch (some 1),
    .fault 1 0x7ffff000, .go 1 0, .fault 1 0x7ffff000, .go 1 4096, .go 1 0, .go 1 0,
    .load 1 0x7ffff010 0]

theorem no_leak_stackFault :
    ∃ s m, run VmState.step (VmState.boot smallRam (fun _ => evictedEntry) (fun _ => 0) (fun _ => 1)
        fun _ => []) (stackFaultRun 7) = .ok s ∧
      run VmState.step (VmState.boot smallRam (fun _ => evictedEntry) (fun _ => 0) (fun _ => 2)
        fun _ => []) (stackFaultRun 9) = .ok (s.withMem m) ∧
      ∀ as P, s.procs as = some P → P.stage = .running → P.stack = [] →
        (∀ e ∈ P.space.pt, e.inMem = true → ∀ o < pageSize,
          m (e.frame + o) = s.mem (e.frame + o)) ∧
        (s.cur = some as → ∀ x pa, s.At x pa → m pa = s.mem pa) := by
  obtain ⟨s, hs, -⟩ := exists_ok_of_toOption (show (run VmState.step (VmState.boot smallRam
    (fun _ => evictedEntry) (fun _ => 0) (fun _ => 1) fun _ => []) (stackFaultRun 7)).toOption.map
      (fun s => (s.procs 1).isSome) = some true by decide +kernel)
  have hacts : List.Forall₂ VmAction.Same (stackFaultRun 7) (stackFaultRun 9) :=
    .cons (.kwrite _ _ _) (List.forall₂_same.mpr fun a _ => .refl a)
  have hdef : Along VmState.step DefineFirst (VmState.boot smallRam (fun _ => evictedEntry)
      (fun _ => 0) (fun _ => 1) fun _ => []) (stackFaultRun 7) := by
    refine ⟨trivial, fun t ht => ⟨trivial, fun u hu => ⟨fun P hP e he => ?_, fun v hv => ?_⟩⟩⟩
    · obtain ⟨-, hu⟩ := require_bind_ok.mp hu
      obtain rfl := Except.ok.inj hu
      obtain rfl := Option.some.inj ((setProc_self _ _ _).symm.trans hP)
      cases he
    · exact along_defineFirst (by simp [DefineFirst])
  obtain ⟨m, hm, hsame⟩ := no_leak hdef hacts hs
  exact ⟨s, m, hs, hm, hsame⟩

end Runs

end Os161
