import PtoRuntime.Hier.WakeUp

/-!
# Hierarchical runtime — what the fanout counters count

A slot is to be released once by its own completion, once by the end of its scope if it
is registered in one, and once by the completion of each consumer. `fanout_total + 1`
counts these releases and `fanout_released` those performed, in every reachable state
and whatever the interleaving: a release is performed at most once, and only after the
completion or scope end that owes it.
-/

namespace PtoRuntime.Hier

open Lib Function List

/-! ## Who has to release a slot -/

/-- The releases `fanout_total + 1` counts. -/
def expected (s : State) (p : Nat) : List Holder :=
  .self :: ((if s.inScope p then [.scope] else []) ++ (s.fanoutConsumers p).map .consumer)

/-- Slots registered in an open scope whose release is still to come. -/
def openTasks (s : State) : List Nat :=
  match s.orch with
  | .scopeEnd tasks => tasks ++ s.scopes.tail.flatten
  | .release slot .fetchAdd tasks => slot :: (tasks ++ s.scopes.tail.flatten)
  | .release _ _ tasks => tasks ++ s.scopes.tail.flatten
  | _ => s.scopes.flatten

/-- A slot whose fanout fields are not set up yet. -/
def OrchPc.totalling? : OrchPc → Option Nat
  | .lookup slot .. | .insert slot .. | .attach slot .. | .submit slot _ .faninCount
  | .submit slot _ .faninReleased | .submit slot _ .fanoutTotal
  | .submit slot _ .fanoutReleased => some slot
  | .alloc _ .active => none
  | .alloc slot _ => some slot
  | _ => none

/-- A slot that is not registered in its scope yet. -/
def OrchPc.unregistered? : OrchPc → Option Nat
  | .alloc _ .state => none
  | pc => pc.totalling?

/-- A slot with its `fanout_total` stored and the store of `fanout_released` to come. -/
def OrchPc.registering? : OrchPc → Option Nat
  | .submit slot _ .fanoutReleased | .alloc slot .fanoutReleased => some slot
  | _ => none

/-- A slot whose completion has not released it. -/
def SchedPc.beforeSelf? : SchedPc → Option Nat
  | .snapshot slot | .notify slot _ | .check slot .. | .casReady slot .. | .push slot ..
  | .consumeSelf slot .fetchAdd => some slot
  | _ => none

/-- A slot whose completion has not come to its producers. -/
def SchedPc.beforeDeferred? : SchedPc → Option Nat
  | .snapshot slot | .notify slot _ | .check slot .. | .casReady slot .. | .push slot ..
  | .consumeSelf slot _ | .readProducers slot => some slot
  | _ => none

/-- A slot whose completion releases its producers, and those still to come. -/
def SchedPc.deferring? : SchedPc → Option (Nat × List Nat)
  | .deferred slot producers => some (slot, producers)
  | .consumeProducer slot prod .fetchAdd producers => some (slot, prod :: producers)
  | .consumeProducer slot _ _ producers => some (slot, producers)
  | _ => none

/-- The slot's own release is still to come. -/
def SelfAhead (s : State) (t : Nat) : Prop := ¬ Done s t ∨ s.sched.beforeSelf? = some t

/-- The release of `p` by its consumer `c` is still to come. -/
def ConsumerAhead (s : State) (c p : Nat) : Prop :=
  ¬ Done s c ∨ s.sched.beforeDeferred? = some c ∨
    ∃ ps, s.sched.deferring? = some (c, ps) ∧ p ∈ ps

structure Refs (s : State) : Prop where
  count : ∀ p, s.orch.totalling? ≠ some p → s.fanoutReleased p = (s.releases p).length
  total : ∀ p, s.orch.totalling? ≠ some p →
    s.fanoutTotal p = (if s.inScope p then 1 else 0) + (s.fanoutConsumers p).length
  nodup : ∀ p, (s.releases p).Nodup
  expected : ∀ p, s.releases p ⊆ expected s p
  fresh : ∀ p, s.orch.totalling? = some p ∨ s.nextTaskId ≤ p → s.releases p = []
  unregistered : ∀ p, s.orch.unregistered? = some p ∨ s.nextTaskId ≤ p → s.inScope p = false
  registering : ∀ p, s.orch.registering? = some p → s.fanoutTotal p = s.scopeRef
  allocating : ∀ p, s.orch = .alloc p .state → s.fanoutReleased p = 1 ∧
    s.fanoutTotal p = if s.inScope p then 1 else 0
  openNodup : (openTasks s).Nodup
  openTask : ∀ p ∈ openTasks s, s.inScope p = true ∧ .scope ∉ s.releases p
  deferring : ∀ c ps, s.sched.deferring? = some (c, ps) →
    ps.Nodup ∧ ∀ p ∈ ps, p ∈ s.faninProducers c
  selfAhead : ∀ t, SelfAhead s t → .self ∉ s.releases t
  consumerAhead : ∀ c p, ConsumerAhead s c p → .consumer c ∉ s.releases p

theorem refs_init : Refs State.init where
  count _ _ := rfl
  total _ _ := rfl
  nodup _ := nodup_nil
  expected _ := nil_subset _
  fresh _ _ := rfl
  unregistered _ _ := rfl
  registering _ h := by cases h
  allocating _ h := by cases h
  openNodup := nodup_nil
  openTask _ h := by cases h
  deferring _ _ h := by cases h
  selfAhead _ _ h := by cases h
  consumerAhead _ _ _ h := by cases h

/-! ## What is ahead -/

variable {s s' : State} {t slot p n : Nat} {o : OrchPc}

theorem Life.completing_done (h : Life s) (ht : s.sched.completing? = some t) : Done s t :=
  (h.done_iff t).mpr (.inl (h.phase_completing ht).1)

theorem completing_of_beforeSelf {pc : SchedPc} (h : pc.beforeSelf? = some t) :
    pc.completing? = some t := by
  cases pc with
  | consumeSelf slot pc => cases pc <;> first | exact h | cases h
  | _ => first | exact h | cases h

/-- The slot the scheduler is about to complete is not done. -/
theorem Life.not_done_storeCompleted (h : Life s) (hpc : s.sched = .storeCompleted slot) :
    ¬ Done s slot := by
  rw [h.done_iff, (h.schedToken (t := slot) (a := .completing)
    (by rw [hpc]; exact mem_singleton.mpr rfl)).1]
  simp

theorem consumeNext_ne_fetchAdd (s : State) (slot : Nat) (pc : ConsumePc) :
    s.consumeNext slot pc ≠ some .fetchAdd := by
  cases pc <;> simp only [State.consumeNext] <;> (try split) <;> simp

/-- Once `try_consume` has started, the slot's own release is not ahead. -/
theorem beforeSelf_consumeNext (s : State) (slot : Nat) (pc : ConsumePc) :
    SchedPc.beforeSelf? (match s.consumeNext slot pc with
      | some pc' => .consumeSelf slot pc'
      | none => .readProducers slot) = none := by
  have hne := consumeNext_ne_fetchAdd s slot pc
  split
  · rename_i pc' hn
    cases pc' <;> first | rfl | exact absurd hn hne
  · rfl

theorem deferring_consumeNext (s : State) (slot prod : Nat) (pc : ConsumePc)
    (producers : List Nat) :
    SchedPc.deferring? (match s.consumeNext prod pc with
      | some pc' => .consumeProducer slot prod pc' producers
      | none => .deferred slot producers) = some (slot, producers) := by
  have hne := consumeNext_ne_fetchAdd s prod pc
  split
  · rename_i pc' hn
    cases pc' <;> first | rfl | exact absurd hn hne
  · rfl

/-- A self release is still ahead. -/
theorem selfAhead_of_schedMove (hL : Life s) (hs : s.SchedMove s') (h : SelfAhead s' t) :
    SelfAhead s t := by
  rcases h with h | h
  · exact .inl fun hd => h (done_schedMove hd hs)
  · cases hs with
    | storeCompleted hpc => cases h; exact .inl (hL.not_done_storeCompleted hpc)
    | check hpc =>
      simp only at h
      split at h <;> exact .inr (by rw [hpc]; exact h)
    | @consumeSelf slot pc hpc =>
      cases (beforeSelf_consumeNext s slot pc).symm.trans h
    | readProducers | returned | deferred => cases h
    | consumeProducer => simp only at h; split at h <;> cases h
    | _ hpc =>
      exact .inr (by rw [hpc]; exact h)

theorem consumerAhead_of_schedMove {c : Nat} (hL : Life s) (hs : s.SchedMove s')
    (h : ConsumerAhead s' c p) : ConsumerAhead s c p := by
  rcases h with h | h | ⟨ps, h, hp⟩
  · exact .inl fun hd => h (done_schedMove hd hs)
  · cases hs with
    | storeCompleted hpc => cases h; exact .inl (hL.not_done_storeCompleted hpc)
    | check hpc | consumeSelf hpc =>
      simp only at h
      split at h <;> exact .inr (.inl (by rw [hpc]; exact h))
    | readProducers | returned | deferred => cases h
    | consumeProducer => simp only at h; split at h <;> cases h
    | _ hpc =>
      exact .inr (.inl (by rw [hpc]; exact h))
  · cases hs with
    | readProducers hpc => cases h; exact .inr (.inl (by rw [hpc]; rfl))
    | deferred hpc => exact .inr (.inr ⟨ps, by rw [hpc]; exact h, hp⟩)
    | check | consumeSelf => simp only at h; split at h <;> cases h
    | @consumeProducer slot prod pc producers hpc =>
      cases (deferring_consumeNext s slot prod pc producers).symm.trans h
      refine .inr (.inr ?_)
      rw [hpc]
      cases pc <;> exact ⟨_, rfl, by simp [hp]⟩
    | _ => cases h

theorem deferring_schedMove (hE : Edges s) (h : Refs s) (hs : s.SchedMove s') :
    ∀ c ps, s'.sched.deferring? = some (c, ps) →
      ps.Nodup ∧ ∀ p ∈ ps, p ∈ s'.faninProducers c := by
  intro c ps hd
  cases hs with
  | readProducers hpc => cases hd; exact ⟨hE.producersNodup c, fun p hp => hp⟩
  | deferred hpc => exact h.deferring c ps (by rw [hpc]; exact hd)
  | check | consumeSelf => simp only at hd; split at hd <;> cases hd
  | @consumeProducer slot prod pc producers hpc =>
    have hAll : producers.Nodup ∧ ∀ p ∈ producers, p ∈ s.faninProducers slot := by
      by_cases hf : pc = .fetchAdd
      · obtain ⟨hnd, hall⟩ := h.deferring slot (prod :: producers) (by rw [hpc, hf]; rfl)
        exact ⟨(nodup_cons.mp hnd).2, fun p hp => hall p (mem_cons_of_mem _ hp)⟩
      · exact h.deferring slot producers (by rw [hpc]; cases pc <;> first | rfl | contradiction)
    cases (deferring_consumeNext s slot prod pc producers).symm.trans hd
    exact hAll
  | _ => cases hd

/-! ## The scheduler's steps -/

theorem pending_of_totalling {pc : OrchPc} (h : pc.totalling? = some p) :
    pc.pending? = some p := by
  cases pc with
  | submit slot n pc => cases pc <;> first | exact h | cases h
  | alloc slot pc => cases pc <;> exact h
  | _ => exact h

/-- A release that was still ahead is performed. -/
theorem Refs.release (h : Refs s) {x : Holder} {sc : SchedPc}
    (hTotalling : o.totalling? = s.orch.totalling?)
    (hUnreg : o.unregistered? = s.orch.unregistered?)
    (hRegistering : o.registering? = s.orch.registering?)
    (hAlloc : ∀ q, o = .alloc q .state → s.orch = .alloc q .state) (hNew : x ∉ s.releases p)
    (hExp : x ∈ Hier.expected s p) (hReady : s.orch.totalling? ≠ some p) (hOld : p < s.nextTaskId)
    (hOpen : (openTasks { s with orch := o }).Sublist (openTasks s))
    (hOpenX : x = .scope → p ∉ openTasks { s with orch := o })
    (hDefer : ∀ c ps, sc.deferring? = some (c, ps) → ps.Nodup ∧ ∀ q ∈ ps, q ∈ s.faninProducers c)
    (hSelf : ∀ t, SelfAhead { s with sched := sc } t → SelfAhead s t ∧ ¬ (x = .self ∧ t = p))
    (hAhead : ∀ c q, ConsumerAhead { s with sched := sc } c q →
      ConsumerAhead s c q ∧ ¬ (x = .consumer c ∧ q = p)) :
    Refs { s.consumeEffect p x .fetchAdd with orch := o, sched := sc } := by
  have hMem (y : Holder) (q : Nat) : y ∈ update s.releases p (s.releases p ++ [x]) q ↔
      y ∈ s.releases q ∨ (y = x ∧ q = p) := by
    rw [update_apply]
    split <;> simp [*]
  have hTot {q : Nat} (hq : o.totalling? ≠ some q) : s.orch.totalling? ≠ some q := hTotalling ▸ hq
  refine ⟨fun q hq => ?_, fun q hq => h.total q (hTot hq),
    nodup_update_concat h.nodup hNew, fun q y hy => ?_,
    fun q hq => ?_, fun q hq => h.unregistered q (hUnreg ▸ hq),
    fun q hq => h.registering q (hRegistering ▸ hq), fun q hq => ?_, h.openNodup.sublist hOpen,
    fun q hq => ?_, hDefer, fun t ht hm => ?_, fun c q ht hm => ?_⟩
  · have hcount := h.count q (hTot hq)
    by_cases hqp : q = p
    · subst hqp
      simp [State.consumeEffect, hcount]
    · simp [State.consumeEffect, hqp, hcount]
  · rcases (hMem y q).mp hy with hy | ⟨rfl, rfl⟩
    · exact h.expected q hy
    · exact hExp
  · have hq' : s.orch.totalling? = some q ∨ s.nextTaskId ≤ q := hTotalling ▸ hq
    refine (update_of_ne ?_ ..).trans (h.fresh q hq')
    rintro rfl
    exact hq'.elim hReady (Nat.not_le_of_lt hOld)
  · obtain ⟨hrel, htotal⟩ := h.allocating q (hAlloc q hq)
    refine ⟨(update_of_ne ?_ ..).trans hrel, htotal⟩
    rintro rfl
    exact hReady (by rw [hAlloc q hq]; rfl)
  · obtain ⟨hin, hnot⟩ := h.openTask q (hOpen.subset hq)
    refine ⟨hin, fun hm => ?_⟩
    rcases (hMem _ q).mp hm with hm | ⟨hx, rfl⟩
    · exact hnot hm
    · exact hOpenX hx.symm hq
  · obtain ⟨hs, hne⟩ := hSelf t ht
    rcases (hMem _ t).mp hm with hm | ⟨hx, rfl⟩
    · exact h.selfAhead t hs hm
    · exact hne ⟨hx.symm, rfl⟩
  · obtain ⟨hs, hne⟩ := hAhead c q ht
    rcases (hMem _ q).mp hm with hm | ⟨hx, rfl⟩
    · exact h.consumerAhead c q hs hm
    · exact hne ⟨hx.symm, rfl⟩

/-- A step of the scheduler. -/
theorem refs_schedMove (hL : Life s) (hE : Edges s) (h : Refs s) (hs : s.SchedMove s') :
    Refs s' := by
  have hDefer := deferring_schedMove hE h hs
  have hSelf (t : Nat) : SelfAhead s' t → SelfAhead s t := selfAhead_of_schedMove hL hs
  have hAhead (c p : Nat) : ConsumerAhead s' c p → ConsumerAhead s c p :=
    consumerAhead_of_schedMove hL hs
  have hNotSelf (t : Nat) (ht : SelfAhead s' t) := h.selfAhead t (hSelf t ht)
  have hNotCons (c p : Nat) (ht : ConsumerAhead s' c p) := h.consumerAhead c p (hAhead c p ht)
  cases hs with
  | @consumeSelf slot pc hpc =>
    cases pc with
    | fetchAdd =>
      -- the task's release of itself
      obtain ⟨hph, hlt, -⟩ := hL.schedToken (t := slot) (a := .completed)
        (by rw [hpc]; exact mem_singleton.mpr rfl)
      have hd : Done s slot := (hL.done_iff slot).mpr (.inl hph)
      refine h.release rfl rfl rfl (fun _ => id) (h.selfAhead slot (.inr (by rw [hpc]; rfl)))
        mem_cons_self (fun ht => ?_) hlt (List.Sublist.refl _) nofun hDefer
        (fun t ht => ⟨hSelf t ht, ?_⟩) fun c q ht => ⟨hAhead c q ht, nofun⟩
      · rw [(hL.pending_lt (t := slot) (pending_of_totalling ht)).2] at hph
        cases hph
      · rintro ⟨-, rfl⟩
        rcases ht with hn | hb
        · exact hn hd
        · cases (beforeSelf_consumeNext s t .fetchAdd).symm.trans hb
    | _ => exact { h with deferring := hDefer, selfAhead := hNotSelf, consumerAhead := hNotCons }
  | @consumeProducer slot prod pc producers hpc =>
    cases pc with
    | fetchAdd =>
      obtain ⟨hph, -, -⟩ := hL.schedToken (t := slot) (a := .completed)
        (by rw [hpc]; exact mem_singleton.mpr rfl)
      have hd : Done s slot := (hL.done_iff slot).mpr (.inl hph)
      -- the release of a producer
      obtain ⟨hnd, hall⟩ := h.deferring slot (prod :: producers) (by rw [hpc]; rfl)
      have hedge := hall prod mem_cons_self
      obtain ⟨hlt, hlt'⟩ := hE.older prod slot hedge
      refine h.release rfl rfl rfl (fun _ => id) (h.consumerAhead slot prod
          (.inr (.inr ⟨prod :: producers, by rw [hpc]; rfl, mem_cons_self⟩)))
        ?_ (fun ht => ?_) (hlt.trans hlt') (List.Sublist.refl _) nofun hDefer
        (fun t ht => ⟨hSelf t ht, nofun⟩) fun c q ht => ⟨hAhead c q ht, ?_⟩
      · simp [expected, (hE.consumer_iff prod slot).mpr hedge]
      · have := hL.last prod (pending_of_totalling ht)
        omega
      · rintro ⟨⟨⟩, rfl⟩
        rcases ht with hn | hb | ⟨ps, hps, hq⟩
        · exact hn hd
        · revert hb
          simp only
          split <;> simp [SchedPc.beforeDeferred?]
        · cases (deferring_consumeNext s slot q .fetchAdd producers).symm.trans hps
          exact (nodup_cons.mp hnd).1 hq
    | _ => exact { h with deferring := hDefer, selfAhead := hNotSelf, consumerAhead := hNotCons }
  -- nothing is released
  | _ => exact { h with deferring := hDefer, selfAhead := hNotSelf, consumerAhead := hNotCons }

/-! ## The orchestrator's steps -/

/-- Steps that release nothing, attach nothing and register nothing. -/
theorem Refs.orch (h : Refs s) {scopes state phase faninCount
    faninReleased outputKeys tensormap readyQueue pushes activeTasks slabReleased
    consumptions} (hDone : ∀ p, Done s p → Done { s with state := state } p)
    (hTotalling : o.totalling? = s.orch.totalling?)
    (hUnreg : o.unregistered? = s.orch.unregistered?) (hRegistering : o.registering? = none)
    (hAlloc : ∀ p, o ≠ .alloc p .state)
    (hOpen : (openTasks { s with orch := o, scopes := scopes }).Sublist (openTasks s)) :
    Refs { s with
      orch := o, scopes := scopes, state := state, phase := phase, faninCount := faninCount
      faninReleased := faninReleased, outputKeys := outputKeys, tensormap := tensormap
      readyQueue := readyQueue, pushes := pushes, activeTasks := activeTasks
      slabReleased := slabReleased, consumptions := consumptions } :=
  { h with
    count := fun p hp => h.count p (hTotalling ▸ hp)
    total := fun p hp => h.total p (hTotalling ▸ hp)
    fresh := fun p hp => h.fresh p (hTotalling ▸ hp)
    unregistered := fun p hp => h.unregistered p (hUnreg ▸ hp)
    registering := fun _ hp => nomatch hRegistering.symm.trans hp
    allocating := fun p hp => absurd hp (hAlloc p)
    openNodup := h.openNodup.sublist hOpen
    openTask := fun p hp => h.openTask p (hOpen.subset hp)
    selfAhead := fun t ht => h.selfAhead t (ht.imp_left fun hn hd => hn (hDone t hd))
    consumerAhead := fun c p ht => h.consumerAhead c p (ht.imp_left fun hn hd => hn (hDone c hd)) }

/-- A producer gets one more consumer. -/
theorem refs_attach (h : Refs s) {prod : Nat} {producers : List Nat}
    (hpc : s.orch = .attach slot (prod :: producers) n) :
    Refs (s.attachProducer slot prod producers n) := by
  have hTot {p : Nat} (hp : some slot ≠ some p) : s.orch.totalling? ≠ some p := by rwa [hpc]
  unfold State.attachProducer
  split
  · exact h.orch (fun _ => id) (by rw [hpc]; rfl) (by rw [hpc]; rfl) rfl (by simp)
      (by simp [openTasks, hpc])
  · refine { h with
      count := fun p hp => h.count p (hTot hp), total := fun p hp => ?_
      expected := fun p x hx => ?_, fresh := fun p hp => h.fresh p (by rwa [hpc])
      unregistered := fun p hp => h.unregistered p (by rwa [hpc]), registering := nofun
      allocating := nofun, openNodup := ?_, openTask := ?_, deferring := fun c ps hd => ?_ }
    · -- the total of the producer grows with its list of consumers
      have := h.total p (hTot hp)
      simp only [update_apply]
      split
      · subst p
        rw [length_append, length_singleton]
        omega
      · exact this
    · have := h.expected p hx
      simp only [expected, mem_cons, mem_append, mem_map] at this ⊢
      refine this.imp_right (Or.imp_right ?_)
      rintro ⟨c, hc, rfl⟩
      refine ⟨c, ?_, rfl⟩
      simp only [update_apply]
      split
      · subst p
        exact mem_append_left _ hc
      · exact hc
    · simpa [openTasks, hpc] using h.openNodup
    · simpa [openTasks, hpc] using h.openTask
    · obtain ⟨hnd, hall⟩ := h.deferring c ps hd
      refine ⟨hnd, fun p hp => ?_⟩
      simp only [update_apply]
      split
      · subst c
        exact mem_append_left _ (hall p hp)
      · exact hall p hp

/-- The store of `fanout_total`: nobody has attached to the slot. -/
theorem Refs.storeTotal (h : Refs s)
    (hOld : s.orch.totalling? = some slot ∧ s.orch.unregistered? = some slot)
    (hNew : o.totalling? = some slot ∧ o.unregistered? = some slot)
    (hAlloc : ∀ p, o ≠ .alloc p .state) (hRegistering : ∀ p, o.registering? = some p → p = slot)
    (hOpen : (openTasks { s with orch := o }).Sublist (openTasks s)) :
    Refs { s with fanoutTotal := update s.fanoutTotal slot s.scopeRef, orch := o } := by
  have hTot : o.totalling? = s.orch.totalling? := hNew.1.trans hOld.1.symm
  have hUn : o.unregistered? = s.orch.unregistered? := hNew.2.trans hOld.2.symm
  refine { h with
    count := fun p hp => h.count p (hTot ▸ hp), total := fun p hp => ?_
    fresh := fun p hp => h.fresh p (hTot ▸ hp)
    unregistered := fun p hp => h.unregistered p (hUn ▸ hp), registering := fun p hp => ?_
    allocating := fun p hp => absurd hp (hAlloc p), openNodup := h.openNodup.sublist hOpen
    openTask := fun p hp => h.openTask p (hOpen.subset hp) }
  · have hps : p ≠ slot := fun he => hp (he ▸ hNew.1)
    exact (update_of_ne hps ..).trans (h.total p (hTot ▸ hp))
  · rw [hRegistering p hp]
    exact update_self ..

/-- Nobody attaches to a slot that is not set up. -/
theorem Refs.no_consumers (hL : Life s) (hE : Edges s) (ht : s.orch.totalling? = some slot) :
    s.fanoutConsumers slot = [] := by
  have hlast := hL.last slot (pending_of_totalling ht)
  rw [eq_nil_iff_forall_not_mem]
  intro c hc
  have := hE.older slot c ((hE.consumer_iff slot c).mp hc)
  omega

/-- The registration in the innermost scope, with the store of `fanout_released`. -/
theorem Refs.register (hL : Life s) (hE : Edges s) (h : Refs s)
    (hTot : s.orch.totalling? = some slot) (hUn : s.orch.unregistered? = some slot)
    (hReg : s.orch.registering? = some slot) (hOpen : openTasks s = s.scopes.flatten)
    (hTotalling : o.totalling? = none ∧ n = 0 ∨ o = .alloc slot .state ∧ n = 1)
    (hRegistering : o.registering? = none) (hUnreg : o.unregistered? = none)
    (hOpen' : ∀ scopes, openTasks { s with scopes := scopes, orch := o } = scopes.flatten) :
    Refs { s.registerTask slot with
      fanoutReleased := update s.fanoutReleased slot n, orch := o } := by
  have hlast := hL.last slot (pending_of_totalling hTot)
  have hnil : s.releases slot = [] := h.fresh slot (.inl hTot)
  have hfalse : s.inScope slot = false := h.unregistered slot (.inl hUn)
  have hOther {p : Nat} (hp : p ≠ slot) : s.orch.totalling? ≠ some p := by
    rw [hTot]
    exact fun he => hp (Option.some.inj he).symm
  have hNe {p : Nat} (hp : p ≠ slot) : (s.registerTask slot).inScope p = s.inScope p := by
    simp only [State.registerTask]
    split
    · rfl
    · rw [update_of_ne hp]
  have hAt : (s.registerTask slot).inScope slot = decide (s.scopes ≠ []) := by
    simp only [State.registerTask]
    split <;> simp [*]
  have hTotalSlot : s.fanoutTotal slot = if (s.registerTask slot).inScope slot then 1 else 0 := by
    rw [h.registering slot hReg, State.scopeRef, hAt]
    by_cases hs : s.scopes = [] <;> simp [hs]
  have hOpenSlot : slot ∉ s.scopes.flatten := by
    intro hp
    have := (h.openTask slot (hOpen ▸ hp)).1
    rw [hfalse] at this
    cases this
  have hPerm : (s.registerTask slot).scopes.flatten.Perm
      ((if s.scopes = [] then [] else [slot]) ++ s.scopes.flatten) := by
    simp only [State.registerTask]
    cases s.scopes with
    | nil => exact List.Perm.refl _
    | cons frame outer =>
      simp only [flatten_cons, append_assoc, singleton_append]
      exact perm_middle
  refine { h with
    count := fun p hp => ?_, total := fun p hp => ?_, expected := fun p x hx => ?_
    fresh := fun p hp => ?_, unregistered := fun p hp => ?_
    registering := fun _ hp => nomatch hRegistering.symm.trans hp
    allocating := fun p hp => ?_, openNodup := ?_, openTask := fun p hp => ?_ }
  · by_cases hps : p = slot
    · subst hps
      rcases hTotalling with ⟨-, rfl⟩ | ⟨rfl, -⟩
      · simp [hnil, State.registerTask]
      · exact absurd rfl hp
    · exact (update_of_ne hps ..).trans (h.count p (hOther hps))
  · by_cases hps : p = slot
    · subst hps
      show s.fanoutTotal p = _ + (s.fanoutConsumers p).length
      rw [Refs.no_consumers hL hE hTot]
      exact hTotalSlot
    · show s.fanoutTotal p = (if (s.registerTask slot).inScope p then 1 else 0) + _
      rw [hNe hps]
      exact h.total p (hOther hps)
  · have hps : p ≠ slot := by
      rintro rfl
      exact not_mem_nil (hnil ▸ hx)
    have := h.expected p hx
    rwa [Hier.expected, ← hNe hps] at this
  · by_cases hps : p = slot
    · rw [hps]
      exact hnil
    · refine h.fresh p (.inr (hp.resolve_left fun hp => ?_))
      rcases hTotalling with ⟨ht, -⟩ | ⟨rfl, -⟩
      · cases ht.symm.trans hp
      · exact hps (Option.some.inj hp).symm
  · have hp := hp.resolve_left fun hp => nomatch hUnreg.symm.trans hp
    have hlt : s.nextTaskId ≤ p := hp
    exact (hNe (by omega)).trans (h.unregistered p (.inr hp))
  · rcases hTotalling with ⟨ht, -⟩ | ⟨rfl, rfl⟩
    · rw [show o = .alloc p .state from hp] at ht
      cases ht
    · cases hp
      exact ⟨update_self .., hTotalSlot⟩
  · refine (hOpen' _).symm ▸ hPerm.nodup_iff.mpr ?_
    have hnd := hOpen ▸ h.openNodup
    split
    · exact hnd
    · exact nodup_cons.mpr ⟨hOpenSlot, hnd⟩
  · have hp := hPerm.mem_iff.mp (hOpen' _ ▸ hp)
    by_cases hps : p = slot
    · subst hps
      have hs : s.scopes ≠ [] := fun hs => by simp [hs] at hp
      exact ⟨hAt.trans (decide_eq_true hs), fun hm => not_mem_nil (hnil ▸ hm)⟩
    · have hmem : p ∈ openTasks s := by
        rw [hOpen]
        refine (mem_append.mp hp).resolve_left fun hp => ?_
        split at hp <;> simp_all
      exact ⟨(hNe hps).trans (h.openTask p hmem).1, (h.openTask p hmem).2⟩

/-- A step of a submission. -/
theorem refs_submitStep (hL : Life s) (hE : Edges s) (h : Refs s) {pc : SubmitPc}
    (hDone : ∀ p, Done s p → Done (s.submitStep slot n pc) p) (hpc : s.orch = .submit slot n pc) :
    Refs (s.submitStep slot n pc) := by
  cases pc with
  | fanoutTotal =>
    exact h.storeTotal (by rw [hpc]; exact ⟨rfl, rfl⟩) ⟨rfl, rfl⟩ (by simp)
      (fun p hp => (Option.some.inj hp).symm) (by simp [openTasks, hpc])
  | fanoutReleased =>
    exact h.register hL hE (by rw [hpc]; rfl) (by rw [hpc]; rfl) (by rw [hpc]; rfl)
      (by simp [openTasks, hpc]) (.inl ⟨rfl, rfl⟩) rfl rfl fun _ => rfl
  | state =>
    by_cases hn : n = 0 <;>
      refine h.orch hDone ?_ ?_ ?_ ?_ ?_ <;>
      simp [openTasks, hpc, hn, OrchPc.totalling?, OrchPc.unregistered?, OrchPc.registering?]
  | _ =>
    exact h.orch hDone (by rw [hpc]; rfl) (by rw [hpc]; rfl) rfl (by simp)
      (by simp [openTasks, hpc, State.pushReady])

/-- The COMPLETED store of `alloc`, which stands for the slot's own completion. -/
theorem refs_allocState (hL : Life s) (hE : Edges s) (h : Refs s)
    (hDone : ∀ p, Done s p → Done (s.allocStep slot .state) p) (hpc : s.orch = .alloc slot .state) :
    Refs (s.allocStep slot .state) := by
  have hTot : s.orch.totalling? = some slot := by rw [hpc]; rfl
  obtain ⟨hlt, hun⟩ := hL.pending_lt (pending_of_totalling hTot)
  obtain ⟨hrel, htotal⟩ := h.allocating slot hpc
  have hAt : (s.allocStep slot .state).releases slot = [.self] := by
    simp [State.allocStep, h.fresh slot (.inl hTot)]
  have hNe {p : Nat} (hp : p ≠ slot) : (s.allocStep slot .state).releases p = s.releases p :=
    update_of_ne hp ..
  have hOther {p : Nat} (hp : p ≠ slot) : s.orch.totalling? ≠ some p := by
    rw [hTot]
    exact fun he => hp (Option.some.inj he).symm
  refine { h with
    count := fun p _ => ?_, total := fun p _ => ?_, nodup := fun p => ?_, expected := fun p => ?_
    fresh := fun p hp => ?_, unregistered := fun p hp => h.unregistered p (.inr ?_)
    registering := by rintro _ ⟨⟩, allocating := by rintro _ ⟨⟩, openNodup := ?_, openTask :=
      fun p hp => ?_
    selfAhead := fun t ht => ?_, consumerAhead := fun c p ht => ?_ }
  · by_cases hps : p = slot
    · rw [hps, hAt]
      exact hrel
    · rw [hNe hps]
      exact h.count p (hOther hps)
  · by_cases hps : p = slot
    · subst hps
      show s.fanoutTotal p = _ + (s.fanoutConsumers p).length
      rw [Refs.no_consumers hL hE hTot]
      exact htotal
    · exact h.total p (hOther hps)
  · by_cases hps : p = slot
    · rw [hps, hAt]
      exact nodup_singleton _
    · rw [hNe hps]
      exact h.nodup p
  · by_cases hps : p = slot
    · rw [hps, hAt]
      simp [expected]
    · rw [hNe hps]
      exact h.expected p
  · have hp : s.nextTaskId ≤ p := hp.resolve_left (by rintro ⟨⟩)
    exact (hNe (by omega)).trans (h.fresh p (.inr hp))
  · exact hp.resolve_left (by rintro ⟨⟩)
  · simpa [openTasks, hpc, State.allocStep] using h.openNodup
  · have hp' : p ∈ openTasks s := by simpa [openTasks, hpc, State.allocStep] using hp
    obtain ⟨hin, hnot⟩ := h.openTask p hp'
    refine ⟨hin, ?_⟩
    by_cases hps : p = slot
    · rw [hps, hAt]
      simp
    · rwa [hNe hps]
  · by_cases hts : t = slot
    · -- the slot is done, and the scheduler does not know it
      subst hts
      exfalso
      rcases ht with hn | hb
      · exact hn (.inl (update_self ..))
      · have hd := (hL.done_iff t).mp (hL.completing_done (completing_of_beforeSelf hb))
        rw [hun] at hd
        simp at hd
    · rw [hNe hts]
      exact h.selfAhead t (ht.imp_left fun hn hd => hn (hDone t hd))
  · by_cases hps : p = slot
    · rw [hps, hAt]
      simp
    · rw [hNe hps]
      exact h.consumerAhead c p (ht.imp_left fun hn hd => hn (hDone c hd))

/-- A step of `alloc`. -/
theorem refs_allocStep (hL : Life s) (hE : Edges s) (h : Refs s) {pc : AllocPc}
    (hDone : ∀ p, Done s p → Done (s.allocStep slot pc) p) (hpc : s.orch = .alloc slot pc) :
    Refs (s.allocStep slot pc) := by
  cases pc with
  | fanoutTotal =>
    exact h.storeTotal (by rw [hpc]; exact ⟨rfl, rfl⟩) ⟨rfl, rfl⟩ (by simp)
      (fun p hp => (Option.some.inj hp).symm) (by simp [openTasks, hpc])
  | fanoutReleased =>
    exact h.register hL hE (by rw [hpc]; rfl) (by rw [hpc]; rfl) (by rw [hpc]; rfl)
      (by simp [openTasks, hpc]) (.inr ⟨rfl, rfl⟩) rfl rfl fun _ => rfl
  | state => exact refs_allocState hL hE h hDone hpc
  | _ =>
    exact h.orch hDone (by rw [hpc]; rfl) (by rw [hpc]; rfl) rfl (by simp)
      (by simp [openTasks, hpc])

/-- The scope's own release of the slot is behind once `release_ref` has started. -/
theorem openTasks_release (s : State) {u : State} (slot : Nat) (pc : ConsumePc) (tasks : List Nat)
    (ho : u.orch = match s.consumeNext slot pc with
      | some pc' => .release slot pc' tasks
      | none => .scopeEnd tasks) :
    openTasks u = tasks ++ u.scopes.tail.flatten := by
  have hne := consumeNext_ne_fetchAdd s slot pc
  rw [openTasks, ho]
  cases hn : s.consumeNext slot pc with
  | none => rfl
  | some pc' => cases pc' <;> first | rfl | exact absurd hn hne

/-- A scope releases a task. -/
theorem refs_release (h : Refs s) {pc : ConsumePc} {tasks : List Nat}
    (hpc : s.orch = .release slot pc tasks) :
    Refs { s.consumeEffect slot .scope pc with
      orch := match s.consumeNext slot pc with
        | some pc' => .release slot pc' tasks
        | none => .scopeEnd tasks } := by
  have hDone (p : Nat) (hp : Done s p) : Done (s.consumeEffect slot .scope pc) p :=
    hp.consumeEffect slot .scope pc
  have hOpen := openTasks_release s (u := { s with orch := _ }) slot pc tasks rfl
  -- a scope end sets nothing up
  obtain ⟨o, ho, hTot, hUn, hReg, hAlloc⟩ : ∃ o : OrchPc, o = (match s.consumeNext slot pc with
        | some pc' => .release slot pc' tasks
        | none => .scopeEnd tasks) ∧ o.totalling? = s.orch.totalling? ∧
      o.unregistered? = s.orch.unregistered? ∧ o.registering? = none ∧
        ∀ p, o ≠ .alloc p .state := by
    rw [hpc]
    cases s.consumeNext slot pc <;> exact ⟨_, rfl, rfl, rfl, rfl, nofun⟩
  rw [← ho] at hOpen ⊢
  cases pc with
  | fetchAdd =>
    have hOpenOld : openTasks s = slot :: (tasks ++ s.scopes.tail.flatten) := by rw [openTasks, hpc]
    have hnd := hOpenOld ▸ h.openNodup
    obtain ⟨hin, hNew⟩ := h.openTask slot (by rw [hOpenOld]; exact mem_cons_self)
    refine h.release hTot hUn (hReg.trans (by rw [hpc]; rfl))
      (fun q hq => absurd hq (hAlloc q)) hNew
      (by simp [expected, hin]) (by rw [hpc]; nofun) ?_ ?_ (fun _ => ?_) h.deferring
      (fun t ht => ⟨ht, nofun⟩) fun c q ht => ⟨ht, nofun⟩
    · by_contra hge
      rw [h.unregistered slot (.inr (Nat.le_of_not_lt hge))] at hin
      cases hin
    · rw [hOpen, hOpenOld]
      exact sublist_cons_self _ _
    · rw [hOpen]
      exact (nodup_cons.mp hnd).1
  | _ =>
    have hSub : (openTasks { s with orch := o }).Sublist (openTasks s) := by
      rw [hOpen, openTasks, hpc]
    exact h.orch hDone hTot hUn hReg hAlloc hSub

/-- A step of the orchestrator. -/
theorem refs_orchMove (hL : Life s) (hE : Edges s) (h : Refs s) (hs : s.OrchMove s') : Refs s' := by
  have hDone : ∀ p, Done s p → Done s' p := fun p hp => done_orchMove hL hp hs
  cases hs with
  | attach hpc => exact refs_attach h hpc
  | submit hpc => exact refs_submitStep hL hE h hDone hpc
  | alloc hpc => exact refs_allocStep hL hE h hDone hpc
  | release hpc => exact refs_release h hpc
  | _ hpc =>
    exact h.orch hDone (by rw [hpc]; rfl) (by rw [hpc]; rfl) rfl (by simp)
      (by simp [openTasks, hpc])

/-- The allocator hands out a slot nobody has released. -/
theorem Refs.reserveSlot (h : Refs s) {workerType groupSize} (hNone : s.orch.totalling? = none)
    (hTotalling : o.totalling? = some s.nextTaskId) (hUnreg : o.unregistered? = some s.nextTaskId)
    (hRegistering : o.registering? = none) (hAlloc : ∀ p, o ≠ .alloc p .state)
    (hOpen : (openTasks { s with orch := o }).Sublist (openTasks s)) :
    Refs { s with
      nextTaskId := s.nextTaskId + 1, workerType := workerType, groupSize := groupSize,
        orch := o } := by
  have hOld {p : Nat} {q : Option Nat} (hq : q = some s.nextTaskId)
      (hp : q = some p ∨ s.nextTaskId + 1 ≤ p) : s.nextTaskId ≤ p := by
    rcases hp with hp | hp
    · exact le_of_eq (Option.some.inj (hq.symm.trans hp))
    · omega
  exact { h with
    count := fun p _ => h.count p (by rw [hNone]; nofun)
    total := fun p _ => h.total p (by rw [hNone]; nofun)
    fresh := fun p hp => h.fresh p (.inr (hOld hTotalling hp))
    unregistered := fun p hp => h.unregistered p (.inr (hOld hUnreg hp))
    registering := fun _ hp => nomatch hRegistering.symm.trans hp
    allocating := fun p hp => absurd hp (hAlloc p)
    openNodup := h.openNodup.sublist hOpen
    openTask := fun p hp => h.openTask p (hOpen.subset hp) }

theorem refs_move (hL : Life s) (h : Refs s) (hs : Move s s') : Refs s' := by
  have hDone : ∀ p, Done s p → Done s' p := fun p hp => done_move hL hp hs
  cases hs with
  | submit hpc | shutdown hpc =>
    exact h.orch (fun _ => id) (by rw [hpc]; rfl) (by rw [hpc]; rfl) rfl (by simp)
      (by simp [openTasks, hpc])
  | scopeBegin hpc =>
    exact h.orch (fun _ => id) rfl rfl (by rw [hpc]; rfl) (by simp [hpc]) (by simp [openTasks, hpc])
  | scopeEnd hpc hScopes =>
    exact h.orch (fun _ => id) (by rw [hpc]; rfl) (by rw [hpc]; rfl) rfl (by simp)
      (by simp [openTasks, hpc, hScopes])
  | alloc hpc | reserve hpc =>
    exact h.reserveSlot (by rw [hpc]; rfl) rfl rfl rfl (by simp) (by simp [openTasks, hpc])
  | workerDone => exact { h with }
  | _ hpc =>
    refine { h with
      deferring := nofun
      selfAhead := fun t ht => h.selfAhead t (ht.imp (fun hn hd => hn (hDone t hd)) nofun)
      consumerAhead := fun c p ht => h.consumerAhead c p (.inl ?_) }
    exact (ht.resolve_right (by rintro (hb | ⟨ps, hps, -⟩); cases hb; cases hps)) ∘ hDone c

theorem refs_step {a : Act} (hL : Life s) (hE : Edges s) (h : Refs s) (hs : step s a = some s') :
    Refs s' := by
  rcases step_cases hs with ⟨-, hm⟩ | ⟨-, hm⟩ | ⟨-, -, hm⟩
  · exact refs_orchMove hL hE h hm
  · exact refs_schedMove hL hE h hm
  · exact refs_move hL h hm

/-- Nobody releases a slot whose fanout fields are not set up. -/
theorem Refs.not_totalling_of_mem (h : Refs s) {x : Holder} (hx : x ∈ s.releases p) :
    s.orch.totalling? ≠ some p := by
  intro ht
  rw [h.fresh p (.inl ht)] at hx
  cases hx

/-- References add up in every run. -/
theorem Refs.reach {ok : State → Act → Prop} (h : Reach step ok State.init s) :
    Refs s :=
  h.invariant refs_init fun _ _ _ hr hp _ hs => refs_step (Life.reach hr) (Edges.reach hr) hp hs

end PtoRuntime.Hier
