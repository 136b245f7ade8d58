import Os161.Sched.Switch

set_option autoImplicit false

/-!
# Migration among the CPUs

`thread_consider_migration` at the side of everything else that the CPUs do: the places of the function
and what holds there are those of the function on its own, and the countdown of the victims goes on
while other CPUs add threads to the run queues.

* `SchedInv.toMigrate`, `SchedInv.finishMigration`: steps that move no thread.
* `SchedInv.migrated`: a thread goes from the run queue to the victims, or back.
* `SchedInv.sent`: a thread goes to another CPU.
* **`SchedInv.migrate`**: all steps of the function.
-/

namespace Os161

open SchedSys Transition

namespace SchedInv

variable {n : ℕ} {s s' : SchedSys} {c i toSend oneShare : ℕ} {t : ThreadPtr} {ts us : List ThreadPtr}
  {m k : MigPc} {l₁ l₂ : SchedList}

/-- From one place of the function to another one. -/
theorem toMigrate (h : SchedInv n s) (hc : c < n) (hpc : s.pc c = .migrate m) (hq : s.Quiet s' c)
    (hpc' : s'.pc c = .migrate k) (hlocks : Counted s'.cSpinlocks s'.splkHolder)
    (hlock : ∀ d, s'.splkHolder (.runqueue d) = some c ↔ (SchedPc.migrate k).lock c = some d)
    (hok : k.Ok (s.migCpus n c hc) (s.migLists c)) : s.Stepped n c s' := by
  have hcpus : s'.migCpus n c hc = s.migCpus n c hc := by
    unfold migCpus
    rw [hq.curthread]
  have hlists : s'.migLists c = s.migLists c := by
    funext l
    cases l <;> simp only [migLists, hq.lists]
  have hw : s.lists (.wakeup c) = [] := (h.place c hc).wakeup (by simp [hpc]) (by simp [hpc])
  refine h.of_quiet hc hq hlocks (.of_pc hpc' (fun b hb => by cases hb) hlock ?_
    (fun hm => absurd rfl (hm k)) ?_ (fun hm => by cases hm) fun _ e => by cases e)
  · rw [hq.lists]
    exact fun _ _ => hw
  · intro m hm
    obtain rfl := SchedPc.migrate.inj hm
    rw [hcpus, hlists]
    exact hok

/-- The end of the function. -/
theorem toTicked (h : SchedInv n s) (hc : c < n) (hpc : s.pc c = .migrate m) (hq : s.Quiet s' c)
    (hpc' : s'.pc c = .ticked) (hlocks : Counted s'.cSpinlocks s'.splkHolder)
    (hlock : ∀ d, s'.splkHolder (.runqueue d) ≠ some c) (hv : s.lists (.victims c) = []) :
    s.Stepped n c s' := by
  have hw : s.lists (.wakeup c) = [] := (h.place c hc).wakeup (by simp [hpc]) (by simp [hpc])
  refine h.of_quiet hc hq hlocks (.of_pc hpc' (fun b hb => by cases hb)
    (fun d => iff_of_false (hlock d) fun e => by cases e) ?_ ?_ (fun m hm => by cases hm)
    (fun hm => by cases hm) fun _ e => by cases e)
  · rw [hq.lists]
    exact fun _ _ => hw
  · rw [hq.lists]
    exact fun _ => hv

/-- The locks at a place of the function where none is held. -/
theorem migrate_unlocked (h : SchedInv n s) (hc : c < n) (hpc : s.pc c = .migrate m)
    (hm : (SchedPc.migrate m).lock c = none) (d : ℕ) : s.splkHolder (.runqueue d) ≠ some c :=
  (h.place c hc).no_lock (by rw [hpc, hm]) d

/-- The lock at a place of the function where one is held. -/
theorem migrate_locked (h : SchedInv n s) (hc : c < n) (hpc : s.pc c = .migrate m) {e : ℕ}
    (hm : (SchedPc.migrate m).lock c = some e) (d : ℕ) :
    s.splkHolder (.runqueue d) = some c ↔ some e = some d := by
  rw [(h.place c hc).lock, hpc, hm]

/-- **A thread goes from the run queue to the victims, or back.** -/
theorem migrated (h : SchedInv n s) (hc : c < n) (hpc : s.pc c = .migrate m)
    (hl₁ : l₁ = .runqueue c ∨ l₁ = .victims c) (hl₂ : l₂ = .runqueue c ∨ l₂ = .victims c)
    (hq : (s.lists l₁).Perm (t :: ts)) (hus : us.Perm (t :: (s.relist l₁ ts t none).lists l₂))
    (hlock : (SchedPc.migrate k).lock c = (SchedPc.migrate m).lock c)
    (hok : k.Ok (s.migCpus n c hc)
      (migLists ((s.relist l₁ ts t none).relist l₂ us t (some l₂)) c)) :
    s.Stepped n c (((s.relist l₁ ts t none).relist l₂ us t (some l₂)).goto c (.migrate k)) := by
  have hplace := h.place c hc
  have hold : s.listed t = some l₁ := h.located.place_of_perm hq
  have hfit : s.tCpu t < n ∧ s.tCpu t = c ∧ s.stateOf t = .ready := by
    obtain ⟨-, hlt, hfit⟩ := (h.threads t).listed _ hold
    rcases hl₁ with rfl | rfl <;> exact ⟨hlt, hfit⟩
  have hpc' := goto_pc (s := (s.relist l₁ ts t none).relist l₂ us t (some l₂)) (c := c)
    (.migrate k)
  have hothers : ∀ l ≠ l₁, l ≠ l₂ →
      ((s.relist l₁ ts t none).relist l₂ us t (some l₂)).lists l = s.lists l :=
    fun l h₁ h₂ => (Function.update_of_ne h₂ ..).trans (Function.update_of_ne h₁ ..)
  have hsame : ∀ l, (∀ d, l ≠ .runqueue d) → (∀ d, l ≠ .victims d) →
      ((s.relist l₁ ts t none).relist l₂ us t (some l₂)).lists l = s.lists l := by
    intro l hr hv
    refine hothers l ?_ ?_
    · rcases hl₁ with rfl | rfl
      · exact hr c
      · exact hv c
    · rcases hl₂ with rfl | rfl
      · exact hr c
      · exact hv c
  have hown : ∀ l : SchedList, (l = .runqueue c ∨ l = .victims c) → (∀ d ≠ c, l ≠ .wakeup d ∧ l ≠ .victims d ∧
      l ≠ .runqueue d) ∧ ∀ u, l ≠ .newthread u := by
    rintro l (rfl | rfl) <;> exact ⟨fun d hd => by simp [Ne.symm hd], by simp⟩
  refine h.of_move (m := t) l₂ hc ?_ rfl rfl rfl rfl rfl rfl ?_ (fun _ _ => rfl)
    (fun _ _ => rfl) ?_ hold (Function.update_self ..) hfit.1 (.inl rfl) ?_ ?_ ?_ h.locks
    (.of_pc hpc' (fun b hb => by cases hb) ?_ (fun _ _ => ?_) (fun hm => absurd rfl (hm k)) ?_
      (fun hm => by cases hm) fun _ e => by cases e)
  · exact (Frame.relist (.inl rfl) (hown _ hl₁).1 fun u _ _ => (hown _ hl₁).2 u).trans
      ((Frame.relist (.inl rfl) (hown _ hl₂).1 fun u _ _ => (hown _ hl₂).2 u).trans (.goto _))
  · rw [hpc', hpc]
    rfl
  · intro u hu
    exact (Function.update_of_ne hu ..).trans (Function.update_of_ne hu ..)
  · intro u hu
    exact fun hnil => hu ((hsame _ (by simp) (by simp)).trans hnil)
  · have hquiet : s.Quiet (s.goto c (.migrate k)) c := .goto (by rw [hpc]; rfl)
    have hready : (s.goto c (.migrate k)).stateOf t = .ready := (hquiet.stateOf_eq t).trans hfit.2.2
    rcases hl₂ with rfl | rfl <;> exact ⟨hfit.2.1, hready⟩
  · exact (h.located.remove hq).insert (Function.update_self ..) hus
  · rw [hlock, ← hpc]
    exact hplace.lock
  · exact (hsame _ (by simp) (by simp)).trans (hplace.wakeup (by simp [hpc]) (by simp [hpc]))
  · intro m hm
    obtain rfl := SchedPc.migrate.inj hm
    exact hok

/-- **A thread goes to another CPU.** -/
theorem sent (h : SchedInv n s) (hc : c < n) (hpc : s.pc c = .migrate (.send i toSend oneShare))
    (hi : i < n) (hic : i ≠ c) (hv : s.lists (.victims c) = t :: ts) (ht : t ≠ s.cCurthread c)
    (hdown : Countdown (s.migCpus n c hc) (toSend - 1) ts) :
    s.Stepped n c (((({ s.relist (.victims c) ts t none with
        tCpu := Function.update s.tCpu t i } : SchedSys).relist (.runqueue i)
      (s.lists (.runqueue i) ++ [t]) t (some (.runqueue i))).unidle c i).goto c
        (.migrate (.send i (toSend - 1) oneShare))) := by
  have hplace := h.place c hc
  obtain ⟨hold, hloc⟩ := h.remhead_located hv
  obtain ⟨-, hlt, hcpu, hready⟩ := (h.threads t).listed _ hold
  have hst : s.tState t = .ready := by
    unfold stateOf at hready
    rwa [hcpu, if_neg ht.symm] at hready
  have hhome : Function.update s.tCpu t i t = i := Function.update_self ..
  have hcuri : s.cCurthread i ≠ t := by
    intro e
    have hhome' := (h.current i hi).home
    rw [e, hcpu] at hhome'
    exact hic hhome'.symm
  have hvict : s.Frame (s.relist (.victims c) ts t none) c t :=
    .relist (.inl rfl) (fun d hd => by simp [Ne.symm hd]) (by simp)
  have hmoved : s.Frame { s.relist (.victims c) ts t none with
      tCpu := Function.update s.tCpu t i } c t :=
    hvict.trans { Frame.refl _ c t with tCpu := fun u hu _ => Function.update_of_ne hu .. }
  have hf := (hmoved.trans (.enqueued (.inl rfl) i)).trans
    (.goto (.migrate (.send i (toSend - 1) oneShare)))
  have hothers : ∀ l ≠ .victims c, l ≠ .runqueue i → Function.update (Function.update s.lists
      (.victims c) ts) (.runqueue i) (s.lists (.runqueue i) ++ [t]) l = s.lists l :=
    fun l h₁ h₂ => (Function.update_of_ne h₂ ..).trans (Function.update_of_ne h₁ ..)
  have hvicts : Function.update (Function.update s.lists (.victims c) ts) (.runqueue i)
      (s.lists (.runqueue i) ++ [t]) (.victims c) = ts :=
    (Function.update_of_ne (by simp) ..).trans (Function.update_self ..)
  have hqueue : s.lists (.runqueue i) = Function.update s.lists (.victims c) ts (.runqueue i) :=
    (Function.update_of_ne (by simp) ..).symm
  rw [unidle_eq] at hf ⊢
  refine h.of_move (m := t) (.runqueue i) hc hf rfl rfl rfl rfl rfl rfl ?_
    (fun u hu => Function.update_of_ne hu ..) (fun _ _ => rfl) ?_ hold (Function.update_self ..)
    (hhome.trans_lt hi) (.inr ⟨hcpu, ht⟩) ?_ ⟨hhome, ?_⟩ ?_ h.locks
    (.of_pc (goto_pc _) (fun b hb => by cases hb) ?_ (fun _ _ => ?_) (fun hm => absurd rfl (hm _)) ?_
      (fun hm => by cases hm) fun _ e => by cases e)
  · rw [goto_pc, hpc]
    rfl
  · intro u hu
    exact (Function.update_of_ne hu ..).trans (Function.update_of_ne hu ..)
  · exact fun u hu hnil => hu ((hothers _ (by simp) (by simp)).trans hnil)
  · refine (if_neg ?_).trans hst
    change s.cCurthread (Function.update s.tCpu t i t) ≠ t
    rw [hhome]
    exact hcuri
  · refine hloc.insert (Function.update_self ..) ?_
    rw [hqueue]
    exact List.perm_append_singleton _ _
  · exact h.migrate_locked hc hpc rfl
  · exact (hothers _ (by simp) (by simp)).trans (hplace.wakeup (by simp [hpc]) (by simp [hpc]))
  · intro m hm
    obtain rfl := SchedPc.migrate.inj hm
    rw [← hvicts] at hdown
    exact ⟨hi, hic, hdown⟩

/-- The end of the function, when no victims are left. -/
theorem finishMigration (h : SchedInv n s) (hc : c < n) (hpc : s.pc c = .migrate m)
    (hq : s.Quiet s' c) (hlocks : Counted s'.cSpinlocks s'.splkHolder)
    (hlock : ∀ d, s'.splkHolder (.runqueue d) ≠ some c) (hv : s.lists (.victims c) = []) :
    Safe (s.Stepped n c) (s'.finishMigration c) := by
  have hnil : s'.lists (.victims c) = [] := by rw [hq.lists, hv]
  unfold SchedSys.finishMigration
  rw [kassert_bind hnil]
  exact h.toTicked hc hpc (hq.trans (.goto (by rw [hq.newstate, hpc]; rfl))) (goto_pc _) hlocks hlock hv

/-- **The loop that counts.** -/
theorem sample {myCount totalCount : ℕ} (h : SchedInv n s) (hc : c < n)
    (hpc : s.pc c = .migrate (.sample i myCount totalCount)) :
    Safe (s.Stepped n c) (s.migrate n c (.sample i myCount totalCount)) := by
  have hno := h.migrate_unlocked hc hpc rfl
  have hns : (s.pc c).newstate = none := by rw [hpc]; rfl
  obtain ⟨hv, hcount⟩ := (h.place c hc).migrate _ hpc
  rw [SchedSys.migrate]
  by_cases hi : i < n
  · rw [if_pos hi]
    refine safe_acquire (hno i) fun hl => ?_
    refine safe_release (counted_locked h.locks hl) (Function.update_self ..) ?_
    rw [unlocked_locked hl]
    refine h.toMigrate hc hpc (.goto (by rw [hns]; rfl)) (goto_pc _) h.locks
      (fun d => iff_of_false (hno d) fun e => by cases e) ⟨hv, fun hlt => ?_⟩
    change c < i + 1 at hlt
    by_cases hic : i = c
    · rw [if_pos hic, hic]
      exact le_rfl
    · rw [if_neg hic]
      exact hcount (show c < i by omega)
  · rw [if_neg hi]
    split_ifs
    · exact h.toTicked hc hpc (.goto (by rw [hns]; rfl)) (goto_pc _) h.locks hno hv
    · refine safe_acquire (hno c) fun hl => ?_
      refine h.toMigrate hc hpc ((Quiet.locked hl).trans (.goto ?_)) (goto_pc _)
        (counted_locked h.locks hl) (holder_locked hno c) ⟨?_, Nat.zero_le _, ?_⟩
      · exact hns.symm
      · rw [hv]
        rfl
      · have hle := hcount (show c < i by omega)
        omega

/-- **The loop that pulls** the victims from the run queue: it is not empty. -/
theorem pull (h : SchedInv n s) (hc : c < n) (hpc : s.pc c = .migrate (.pull i toSend oneShare)) :
    Safe (s.Stepped n c) (s.migrate n c (.pull i toSend oneShare)) := by
  have hold := h.migrate_locked hc hpc rfl
  obtain ⟨hlen, hle, hcount⟩ := (h.place c hc).migrate _ hpc
  change (s.lists (.victims c)).length = i at hlen
  change toSend ≤ i + (s.lists (.runqueue c)).length at hcount
  rw [SchedSys.migrate]
  split_ifs with hi
  · rcases List.eq_nil_or_concat' (s.lists (.runqueue c)) with hnil | ⟨ts, t, hq⟩
    · rw [hnil, List.length_nil] at hcount
      omega
    · rw [remtail_concat hq]
      simp only
      have hoff : (s.relist (.runqueue c) ts t none).listed t = none := Function.update_self ..
      have hstay : (s.relist (.runqueue c) ts t none).lists (.victims c) = s.lists (.victims c) :=
        relist_of_ne (by simp) ..
      refine safe_addhead hoff ?_
      refine h.migrated hc hpc (.inl rfl) (.inr rfl) ?_ (List.Perm.refl _) rfl ⟨?_, hi, ?_⟩
      · rw [hq]
        exact List.perm_append_singleton _ _
      · change (lists _ (.victims c)).length = i + 1
        rw [relist_self, hstay, List.length_cons, hlen]
      · change toSend ≤ i + 1 + (lists _ (.runqueue c)).length
        rw [relist_of_ne (by simp), relist_self]
        rw [hq, List.length_append, List.length_singleton] at hcount
        omega
  · have hl : s.splkHolder (.runqueue c) = some c := (hold c).mpr rfl
    refine safe_release h.locks hl ?_
    refine h.toMigrate hc hpc ((Quiet.unlocked hl).trans (.goto ?_)) (goto_pc _)
      (counted_unlocked h.locks hl) (fun d => iff_of_false (holder_unlocked hold d) fun e => by cases e)
      (.inl ?_)
    · exact (congrArg SchedPc.newstate hpc).symm
    · change (s.lists (.victims c)).length = toSend
      omega

/-- The next CPU to send to. -/
theorem distribute (h : SchedInv n s) (hc : c < n)
    (hpc : s.pc c = .migrate (.distribute i toSend oneShare)) :
    Safe (s.Stepped n c) (s.migrate n c (.distribute i toSend oneShare)) := by
  have hno := h.migrate_unlocked hc hpc rfl
  have hns : (s.pc c).newstate = none := by rw [hpc]; rfl
  have hdown := (h.place c hc).migrate _ hpc
  have hgoto : ∀ k, k.Ok (s.migCpus n c hc) (s.migLists c) →
      (SchedPc.migrate k).lock c = none → s.Stepped n c (s.goto c (.migrate k)) :=
    fun k hok hm => h.toMigrate hc hpc (.goto hns.symm) (goto_pc _) h.locks
      (fun d => iff_of_false (hno d) fun e => by cases hm.symm.trans e) hok
  rw [SchedSys.migrate]
  split_ifs with hi hic
  · exact hgoto _ hdown rfl
  · refine safe_acquire (hno i) fun hl => ?_
    exact h.toMigrate hc hpc ((Quiet.locked hl).trans (.goto hns.symm)) (goto_pc _)
      (counted_locked h.locks hl) (holder_locked hno i) ⟨hi.1, hic, hdown⟩
  · exact hgoto _ trivial rfl

/-- **The loop that sends** victims to the CPU `i`: there is a victim, `curthread` is put back, and
another thread goes to the CPU. -/
theorem send (h : SchedInv n s) (hc : c < n) (hpc : s.pc c = .migrate (.send i toSend oneShare)) :
    Safe (s.Stepped n c) (s.migrate n c (.send i toSend oneShare)) := by
  have hold := h.migrate_locked hc hpc rfl
  obtain ⟨hi, hic, hdown⟩ := (h.place c hc).migrate _ hpc
  rw [SchedSys.migrate]
  split_ifs with hmore
  · obtain ⟨t, ts, hv⟩ := hdown.exists_cons hmore.2
    change s.lists (.victims c) = t :: ts at hv
    have hnd : (t :: ts).Nodup := hv ▸ h.located.nodup (.victims c)
    change Countdown _ toSend (s.lists (.victims c)) at hdown
    rw [hv] at hdown
    obtain ⟨hother, hcur⟩ := hdown.next hnd hmore.2
    have hoff : (s.relist (.victims c) ts t none).listed t = none := Function.update_self ..
    unfold sendVictim threadlistRemhead
    simp only [hv]
    split_ifs with ht
    · refine safe_addtail hoff ?_
      refine h.migrated hc hpc (.inr rfl) (.inr rfl) (by rw [hv]) (List.perm_append_singleton _ _) rfl
        ⟨hi, hic, ?_⟩
      change Countdown _ _ (lists _ (.victims c))
      rw [relist_self, relist_self]
      exact hcur ht
    · refine safe_addtail hoff ?_
      have hqueue : (s.relist (.victims c) ts t none).lists (.runqueue i) = s.lists (.runqueue i) :=
        relist_of_ne (by simp) ..
      have hsent := h.sent hc hpc hi hic hv ht (hother ht)
      rw [← hqueue] at hsent
      exact hsent
  · have hl : s.splkHolder (.runqueue i) = some c := (hold i).mpr rfl
    refine safe_release h.locks hl ?_
    refine h.toMigrate hc hpc ((Quiet.unlocked hl).trans (.goto ?_)) (goto_pc _)
      (counted_unlocked h.locks hl) (fun d => iff_of_false (holder_unlocked hold d) fun e => by cases e)
      hdown
    exact (congrArg SchedPc.newstate hpc).symm

/-- The victims that are left. -/
theorem leftovers (h : SchedInv n s) (hc : c < n) (hpc : s.pc c = .migrate .leftovers) :
    Safe (s.Stepped n c) (s.migrate n c .leftovers) := by
  have hno := h.migrate_unlocked hc hpc rfl
  rw [SchedSys.migrate]
  split_ifs with hv
  · exact h.finishMigration hc hpc (.refl s c) h.locks hno hv
  · refine safe_acquire (hno c) fun hl => ?_
    refine h.toMigrate hc hpc ((Quiet.locked hl).trans (.goto ?_)) (goto_pc _)
      (counted_locked h.locks hl) (holder_locked hno c) trivial
    exact (congrArg SchedPc.newstate hpc).symm

/-- **The loop that puts back** the victims that are left. -/
theorem giveBack (h : SchedInv n s) (hc : c < n) (hpc : s.pc c = .migrate .giveBack) :
    Safe (s.Stepped n c) (s.migrate n c .giveBack) := by
  have hold := h.migrate_locked hc hpc rfl
  rw [SchedSys.migrate]
  unfold threadlistRemhead
  cases hv : s.lists (.victims c) with
  | nil =>
    have hl : s.splkHolder (.runqueue c) = some c := (hold c).mpr rfl
    refine safe_release h.locks hl ?_
    exact h.finishMigration hc hpc (.unlocked hl) (counted_unlocked h.locks hl)
      (holder_unlocked hold) hv
  | cons t ts =>
    have hmoved := h.migrated (k := .giveBack) hc hpc (.inr rfl) (.inl rfl) (by rw [hv])
      (List.perm_append_singleton t _) rfl trivial
    have hsame : ∀ s' : SchedSys, s'.pc = s.pc → s'.goto c (.migrate .giveBack) = s' := by
      intro s' hs
      unfold goto
      rw [← hpc, ← hs, Function.update_eq_self]
    rw [hsame] at hmoved
    · change Safe (s.Stepped n c) (threadlistAddtail _ _ _)
      rw [addtail_eq (Function.update_self ..)]
      exact hmoved
    · rfl

/-- **`thread_consider_migration`.** -/
theorem migrate (h : SchedInv n s) (hc : c < n) (hpc : s.pc c = .migrate m) :
    Safe (s.Stepped n c) (s.migrate n c m) := by
  cases m with
  | sample i myCount totalCount => exact h.sample hc hpc
  | pull i toSend oneShare => exact h.pull hc hpc
  | distribute i toSend oneShare => exact h.distribute hc hpc
  | send i toSend oneShare => exact h.send hc hpc
  | leftovers => exact h.leftovers hc hpc
  | giveBack => exact h.giveBack hc hpc
  | done => trivial

end SchedInv

end Os161
