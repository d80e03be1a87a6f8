import PtoRuntime.Hier.RefCount

/-!
# Hierarchical runtime — consumption, step by step

`try_consume` and `release_ref` are the same code on two threads. A step of the system is either
one of its steps, on whichever thread, or leaves consumption alone; what holds of CONSUMED slots
is proved from these two kinds.

All invariants here hold in every run, also where a consumer is attached too late.

Main results: `step_kinds`, `Freed.reach`, `Won.reach`, `Mapped.reach`, `Passed.reach`.
-/

namespace PtoRuntime.Hier

open Lib Function

/-! ## Consuming -/

/-- The slot the orchestrator is about to consume, and where it is in that. -/
def OrchPc.consume? : OrchPc → Option (Nat × ConsumePc)
  | .release slot pc _ => some (slot, pc)
  | _ => none

def SchedPc.consume? : SchedPc → Option (Nat × ConsumePc)
  | .consumeSelf slot pc => some (slot, pc)
  | .consumeProducer _ prod pc _ => some (prod, pc)
  | _ => none

/-- One of the two threads is at `pc` in consuming `p`. -/
def InConsume (s : State) (p : Nat) (pc : ConsumePc) : Prop :=
  s.orch.consume? = some (p, pc) ∨ s.sched.consume? = some (p, pc)

/-- Everybody who has to has released the slot. -/
def AllReleased (s : State) (p : Nat) : Prop := expected s p ⊆ s.releases p

variable {s s' : State} {p : Nat} {pc : ConsumePc} {x : Holder} {ok : State → Act → Prop}

/-- The comparison with `fanout_total + 1`: reaching it means that everybody has
released the slot. -/
theorem Refs.allReleased (h : Refs s) {r : Nat} (hr : r ≤ (s.releases p).length) (hpos : 0 < r)
    (hle : s.fanoutTotal p + 1 ≤ r) : AllReleased s p := by
  have hne : s.releases p ≠ [] := List.ne_nil_of_length_pos (by omega)
  have hTot : s.orch.totalling? ≠ some p := fun ht => hne (h.fresh p (.inl ht))
  refine expected_subset_of_length_le (h.nodup p) (h.expected p) ?_
  have htotal := h.total p hTot
  have hlen : (Hier.expected s p).length = s.fanoutTotal p + 1 := by
    rw [htotal, Hier.expected]
    by_cases hin : s.inScope p = true
    · simp [hin]; omega
    · simp [hin]
  omega

/-- How `try_consume` and `release_ref` go on at `p`. -/
inductive State.ConsumesTo (s : State) (p : Nat) : ConsumePc → ConsumePc → Prop
  | counted : ConsumesTo s p .fetchAdd (.readTotal (s.fanoutReleased p + 1))
  | reached {released} (hle : s.fanoutTotal p + 1 ≤ released) :
      ConsumesTo s p (.readTotal released) .loadState
  | completed (hst : s.state p = .completed) : ConsumesTo s p .loadState .cas
  | won (hst : s.state p = .completed) : ConsumesTo s p .cas .erase
  | erased : ConsumesTo s p .erase .releaseSlab
  | freed : ConsumesTo s p .releaseSlab .decActive

theorem consumeNext_cases {pc' : ConsumePc} (h : s.consumeNext p pc = some pc') :
    s.ConsumesTo p pc pc' := by
  unfold State.consumeNext at h
  split at h <;> (try split at h) <;> cases h <;> constructor <;> assumption

/-! ## Steps -/

theorem subset_update_append {α : Type} (f : Nat → List α) (i : Nat) (l : List α) (p : Nat) :
    f p ⊆ update f i (f i ++ l) p := by
  by_cases hp : p = i
  · subst hp
    simp
  · simp [hp]

theorem consumeEffect_releases (s : State) (slot : Nat) (holder : Holder) (pc : ConsumePc)
    (p : Nat) : s.releases p ⊆ (s.consumeEffect slot holder pc).releases p := by
  cases pc with
  | fetchAdd => exact subset_update_append ..
  | _ => exact List.Subset.refl _

/-- What was released stays released. -/
theorem releases_orchMove (hs : s.OrchMove s') (p : Nat) :
    s.releases p ⊆ s'.releases p := by
  cases hs with
  | attach => unfold State.attachProducer; split <;> exact List.Subset.refl _
  | @submit slot n pc => cases pc <;> exact List.Subset.refl _
  | @alloc slot pc =>
    cases pc with
    | state => exact subset_update_append ..
    | _ => exact List.Subset.refl _
  | release => exact consumeEffect_releases ..
  | _ => exact List.Subset.refl _

theorem releases_schedMove (hs : s.SchedMove s') (p : Nat) :
    s.releases p ⊆ s'.releases p := by
  cases hs with
  | consumeSelf | consumeProducer => exact consumeEffect_releases ..
  | _ => exact List.Subset.refl _

/-- A store that neither makes nor unmakes a CONSUMED slot. -/
theorem consumed_update_iff {t : Nat} {st : TaskState} (ht : s.state t ≠ .consumed)
    (hst : st ≠ .consumed) (p : Nat) :
    update s.state t st p = .consumed ↔ s.state p = .consumed := by
  by_cases hp : p = t
  · subst hp
    rw [update_self]
    exact iff_of_false hst ht
  · rw [update_of_ne hp]

theorem Life.not_consumed (h : Life s) {t : Nat} {a : Phase} (ht : s.phase t = a)
    (ha : a ≠ .completed ∧ a ≠ .returned ∧ a ≠ .allocated) : s.state t ≠ .consumed := fun hc =>
  h.ne_of_done (.inr hc) ht ha rfl

/-- The CAS is the only step that consumes. -/
theorem consumeEffect_consumed_iff (s : State) (slot : Nat) (holder : Holder) (pc : ConsumePc)
    (p : Nat) : (s.consumeEffect slot holder pc).state p = .consumed ↔
      s.state p = .consumed ∨ (p = slot ∧ pc = .cas ∧ s.state p = .completed) := by
  rcases consumeEffect_state s slot holder pc p with he | ⟨hp, hcas, hc, he⟩
  · rw [he]
    refine ⟨.inl, fun h => h.elim id ?_⟩
    rintro ⟨rfl, rfl, hc⟩
    simp [State.consumeEffect, hc] at he
  · exact iff_of_true he (.inr ⟨hp, hcas, hc⟩)

/-- The orchestrator consumes by its CAS only. -/
theorem consumed_orchMove_iff (hL : Life s) (hs : s.OrchMove s') (p : Nat) :
    s'.state p = .consumed ↔
      s.state p = .consumed ∨ (s.orch.consume? = some (p, .cas) ∧ s.state p = .completed) := by
  -- a slot that is being set up is not consumed
  have hNew (slot : Nat) (hpend : s.orch.pending? = some slot) : s.state slot ≠ .consumed :=
    hL.not_consumed (hL.pending_lt hpend).2 (by simp)
  cases hs with
  | attach hpc =>
    unfold State.attachProducer
    split <;> simp [hpc, OrchPc.consume?]
  | @submit slot n pc hpc =>
    have hpend := hNew slot
    rw [hpc] at hpend ⊢
    cases pc with
    | state =>
      refine (consumed_update_iff (hpend rfl) (by split <;> simp) p).trans ?_
      simp [OrchPc.consume?]
    | _ => simp [OrchPc.consume?, State.submitStep, State.pushReady, State.registerTask]
  | @alloc slot pc hpc =>
    have hpend := hNew slot
    rw [hpc] at hpend ⊢
    cases pc with
    | state =>
      refine (consumed_update_iff (hpend rfl) (by simp) p).trans ?_
      simp [OrchPc.consume?]
    | _ => simp [OrchPc.consume?, State.allocStep, State.registerTask]
  | @release slot pc tasks hpc =>
    rw [hpc]
    refine (consumeEffect_consumed_iff s slot .scope pc p).trans ?_
    simp only [OrchPc.consume?, Option.some.injEq, Prod.mk.injEq, and_assoc, eq_comm]
  | _ hpc =>
    simp [hpc, OrchPc.consume?, State.inferInsert]

/-- The scheduler consumes by its CAS only. -/
theorem consumed_schedMove_iff (hL : Life s) (hs : s.SchedMove s') (p : Nat) :
    s'.state p = .consumed ↔
      s.state p = .consumed ∨ (s.sched.consume? = some (p, .cas) ∧ s.state p = .completed) := by
  cases hs with
  | @storeCompleted slot hpc =>
    have hNot : s.state slot ≠ .consumed := fun hc => hL.not_done_storeCompleted hpc (.inr hc)
    refine (consumed_update_iff hNot (by simp) p).trans ?_
    simp [hpc, SchedPc.consume?]
  | casReady hpc hst =>
    refine (consumed_update_iff (by rw [hst]; simp) (by simp) p).trans ?_
    simp [hpc, SchedPc.consume?]
  | @consumeSelf slot pc hpc =>
    rw [hpc]
    refine (consumeEffect_consumed_iff s slot .self pc p).trans ?_
    simp only [SchedPc.consume?, Option.some.injEq, Prod.mk.injEq, and_assoc, eq_comm]
  | @consumeProducer slot prod pc producers hpc =>
    rw [hpc]
    refine (consumeEffect_consumed_iff s prod (.consumer slot) pc p).trans ?_
    simp only [SchedPc.consume?, Option.some.injEq, Prod.mk.injEq, and_assoc, eq_comm]
  | _ hpc =>
    simp [hpc, SchedPc.consume?, State.pushReady]

/-- No other step consumes. -/
theorem consumed_move_iff (hL : Life s) (hs : Move s s') (p : Nat) :
    s'.state p = .consumed ↔ s.state p = .consumed := by
  cases hs with
  | @dispatch queue slot hpc =>
    have hph := (hL.schedHead (t := slot) (a := .dispatching) (by rw [hpc]; rfl)).1
    exact consumed_update_iff (hL.not_consumed hph (by simp)) (by simp) p
  | _ => exact .rfl

/-! ## Two kinds of steps -/

/-- A step of `try_consume` or `release_ref` on `p`, on either thread. -/
structure ConsumeStep (s s' : State) (p : Nat) (x : Holder) (pc : ConsumePc) : Prop where
  here : InConsume s p pc
  keep : ∀ q pc', InConsume s q pc' → InConsume s' q pc' ∨ (q = p ∧ pc' = pc)
  next : ∀ pc', s.consumeNext p pc = some pc' → InConsume s' p pc'
  back : ∀ q pc', InConsume s' q pc' → InConsume s q pc' ∨ (q = p ∧ s.consumeNext p pc = some pc')
  effect : ∃ orch sched, s' = { s.consumeEffect p x pc with orch := orch, sched := sched }

/-- Every other step. -/
structure OtherStep (s s' : State) : Prop where
  inConsume : ∀ q pc, pc ≠ .fetchAdd → (InConsume s' q pc ↔ InConsume s q pc)
  consumed : ∀ p, s'.state p = .consumed ↔ s.state p = .consumed
  slab : s'.slabReleased = s.slabReleased
  keys : ∀ p, s.outputKeys p ⊆ s'.outputKeys p
  mapped : ∀ k p, s'.tensormap.lookup k = some p →
    s.tensormap.lookup k = some p ∨ (k ∈ s'.outputKeys p ∧ s.state p ≠ .consumed)
  released : ∀ p, s.releases p ⊆ s'.releases p
  scope : ∀ p, s'.inScope p = true → s.inScope p = true ∨ s.releases p = []
  depth : s'.scopes.length ≤ s.scopes.length ∨ s'.scopes.length ≤ maxScopeDepth

/-- The orchestrator's steps in `release_ref`. -/
theorem ConsumeStep.orch (x : Holder) {o : OrchPc} (hpc : s.orch.consume? = some (p, pc))
    (ho : o.consume? = (s.consumeNext p pc).map (p, ·)) :
    ConsumeStep s { s.consumeEffect p x pc with orch := o } p x pc where
  here := .inl hpc
  keep q pc' hq := by
    rcases hq with hq | hq
    · cases hpc.symm.trans hq
      exact .inr ⟨rfl, rfl⟩
    · exact .inl (.inr hq)
  next pc' hn := .inl (by simp [ho, hn])
  back q pc' hq := by
    rcases hq with hq | hq
    · obtain ⟨pc'', hn, he⟩ := Option.map_eq_some_iff.mp (ho.symm.trans hq)
      cases he
      exact .inr ⟨rfl, hn⟩
    · exact .inl (.inr hq)
  effect := ⟨o, _, rfl⟩

/-- The scheduler's, in `try_consume` and `release_ref`. -/
theorem ConsumeStep.sched (x : Holder) {sc : SchedPc} (hpc : s.sched.consume? = some (p, pc))
    (ho : sc.consume? = (s.consumeNext p pc).map (p, ·)) :
    ConsumeStep s { s.consumeEffect p x pc with sched := sc } p x pc where
  here := .inr hpc
  keep q pc' hq := by
    rcases hq with hq | hq
    · exact .inl (.inl hq)
    · cases hpc.symm.trans hq
      exact .inr ⟨rfl, rfl⟩
  next pc' hn := .inr (by simp [ho, hn])
  back q pc' hq := by
    rcases hq with hq | hq
    · exact .inl (.inl hq)
    · obtain ⟨pc'', hn, he⟩ := Option.map_eq_some_iff.mp (ho.symm.trans hq)
      cases he
      exact .inr ⟨rfl, hn⟩
  effect := ⟨_, sc, rfl⟩

/-- Outside of `release_ref` the orchestrator consumes nothing; the next release it enters is at
its `fetch_add`. -/
theorem inConsume_orchMove (hs : s.OrchMove s') (hNone : s.orch.consume? = none) (q : Nat)
    (pc : ConsumePc) (hne : pc ≠ .fetchAdd) : InConsume s' q pc ↔ InConsume s q pc := by
  have hNew : ∀ x, s'.orch.consume? = some x → x.2 = .fetchAdd := by
    cases hs with
    | attach => unfold State.attachProducer; split <;> rintro _ ⟨⟩
    | @submit slot n pc =>
      cases pc with
      | state => simp only [State.submitStep]; split <;> rintro _ ⟨⟩
      | _ => rintro _ ⟨⟩
    | @alloc slot pc => cases pc <;> rintro _ ⟨⟩
    | releaseTask => rintro x ⟨⟩; rfl
    | release hpc => rw [hpc] at hNone; cases hNone
    | _ => rintro _ ⟨⟩
  unfold InConsume
  rw [orchMove_sched hs, hNone]
  exact or_congr_left (iff_of_false (fun hc => hne (hNew _ hc)) (by simp))

theorem inConsume_schedMove (hs : s.SchedMove s') (hNone : s.sched.consume? = none) (q : Nat)
    (pc : ConsumePc) (hne : pc ≠ .fetchAdd) : InConsume s' q pc ↔ InConsume s q pc := by
  have hNew : ∀ x, s'.sched.consume? = some x → x.2 = .fetchAdd := by
    cases hs with
    | check => simp only; split <;> nofun
    | notified | deferred => rintro x ⟨⟩; rfl
    | consumeSelf hpc | consumeProducer hpc => rw [hpc] at hNone; cases hNone
    | _ => nofun
  have hOrch : s'.orch = s.orch := by cases hs <;> rfl
  unfold InConsume
  rw [hOrch, hNone]
  exact or_congr_right (iff_of_false (fun hc => hne (hNew _ hc)) nofun)

theorem inConsume_move (hs : Move s s') (q : Nat) (pc : ConsumePc) :
    InConsume s' q pc ↔ InConsume s q pc := by
  unfold InConsume
  cases hs with
  | popCompletion hpc | popReady hpc | dispatch hpc | noWorker hpc =>
    rw [hpc]
    exact or_congr_right (iff_of_false nofun nofun)
  | scopeBegin | workerDone => exact .rfl
  | _ hpc =>
    rw [hpc]
    exact or_congr_left (iff_of_false nofun nofun)

/-- Steps that leave the map and the slots' scopes alone. -/
theorem OtherStep.frame (hIn : ∀ q pc, pc ≠ .fetchAdd → (InConsume s' q pc ↔ InConsume s q pc))
    (hState : ∀ p, s'.state p = .consumed ↔ s.state p = .consumed)
    (hRel : ∀ p, s.releases p ⊆ s'.releases p)
    (hFrame : s'.slabReleased = s.slabReleased ∧ s'.outputKeys = s.outputKeys ∧
      s'.tensormap = s.tensormap ∧ s'.inScope = s.inScope)
    (hDepth : s'.scopes.length ≤ s.scopes.length ∨ s'.scopes.length ≤ maxScopeDepth) :
    OtherStep s s' where
  inConsume := hIn
  consumed := hState
  slab := hFrame.1
  keys p := by rw [hFrame.2.1]; exact List.Subset.refl _
  mapped k p hk := .inl (by rwa [hFrame.2.2.1] at hk)
  released := hRel
  scope p hp := .inl (by rwa [hFrame.2.2.2] at hp)
  depth := hDepth

theorem length_registerTask (s : State) (slot : Nat) :
    (s.registerTask slot).scopes.length = s.scopes.length := by
  unfold State.registerTask
  cases s.scopes <;> rfl

/-- The registration of a slot that nobody has released. -/
theorem inScope_registerTask (hR : Refs s) {slot : Nat} (hTot : s.orch.totalling? = some slot)
    (hp : (s.registerTask slot).inScope p = true) :
    s.inScope p = true ∨ s.releases p = [] := by
  by_cases hps : p = slot
  · rw [hps]
    exact .inr (hR.fresh slot (.inl hTot))
  · left
    simp only [State.registerTask] at hp
    split at hp
    · exact hp
    · rwa [update_of_ne hps] at hp

/-- A new entry of the map is an output of its slot. -/
theorem lookup_insert_output {slot : Nat} {key k : TensorKey} (hNew : s.state slot ≠ .consumed)
    (h : (s.tensormap.insert key slot).lookup k = some p) :
    s.tensormap.lookup k = some p ∨
      (k ∈ update s.outputKeys slot (s.outputKeys slot ++ [key]) p ∧
        s.state p ≠ .consumed) := by
  rw [TensorMap.lookup_insert] at h
  split_ifs at h with hkey
  · cases h
    exact .inr ⟨by simp [hkey], hNew⟩
  · exact .inl h

/-- The orchestrator's steps outside of `release_ref`. -/
theorem otherStep_orchMove (hL : Life s) (hR : Refs s) (hs : s.OrchMove s')
    (hNone : s.orch.consume? = none) : OtherStep s s' := by
  have hIn := inConsume_orchMove hs hNone
  have hState (p : Nat) : s'.state p = .consumed ↔ s.state p = .consumed := by
    rw [consumed_orchMove_iff hL hs p, hNone]
    simp
  have hRel := releases_orchMove hs
  have hNew (slot : Nat) (hpend : s.orch.pending? = some slot) : s.state slot ≠ .consumed :=
    hL.not_consumed (hL.pending_lt hpend).2 (by simp)
  cases hs with
  | release hpc => rw [hpc] at hNone; cases hNone
  | @insert slot x walk producers hpc =>
    refine ⟨hIn, hState, rfl, fun p => ?_, fun k p hk => ?_, hRel, fun _ => .inl,
      .inl le_rfl⟩ <;> by_cases hreg : x.2.registers = true
    · simpa [State.inferInsert, hreg] using subset_update_append ..
    · simp [State.inferInsert, hreg]
    · simp only [State.inferInsert, if_pos hreg] at hk ⊢
      exact lookup_insert_output (hNew slot (by rw [hpc]; rfl)) hk
    · exact .inl (by simpa [State.inferInsert, hreg] using hk)
  | attach =>
    exact .frame hIn hState hRel
      (by unfold State.attachProducer; split <;> exact ⟨rfl, rfl, rfl, rfl⟩)
      (.inl (by unfold State.attachProducer; split <;> exact le_rfl))
  | @submit slot n pc hpc =>
    cases pc with
    | fanoutReleased =>
      exact ⟨hIn, hState, rfl, fun _ => List.Subset.refl _, fun _ _ => .inl, hRel,
        fun p => inScope_registerTask hR (by rw [hpc]; rfl),
        .inl (le_of_eq (length_registerTask s slot))⟩
    | _ => exact .frame hIn hState hRel ⟨rfl, rfl, rfl, rfl⟩ (.inl le_rfl)
  | @alloc slot pc hpc =>
    cases pc with
    | insert ptr =>
      refine ⟨hIn, hState, rfl, fun p => ?_, fun k p hk => ?_, hRel, fun _ => .inl,
        .inl le_rfl⟩ <;> by_cases hnull : ptr = 0
      · simp [State.allocStep, hnull]
      · simpa [State.allocStep, hnull] using subset_update_append ..
      · exact .inl (by simpa [State.allocStep, hnull] using hk)
      · simp only [State.allocStep, if_neg hnull] at hk ⊢
        exact lookup_insert_output (hNew slot (by rw [hpc]; rfl)) hk
    | fanoutReleased =>
      exact ⟨hIn, hState, rfl, fun _ => List.Subset.refl _, fun _ _ => .inl, hRel,
        fun p => inScope_registerTask hR (by rw [hpc]; rfl),
        .inl (le_of_eq (length_registerTask s slot))⟩
    | _ => exact .frame hIn hState hRel ⟨rfl, rfl, rfl, rfl⟩ (.inl le_rfl)
  | scopeEnded => exact .frame hIn hState hRel ⟨rfl, rfl, rfl, rfl⟩ (.inl (by simp))
  | _ => exact .frame hIn hState hRel ⟨rfl, rfl, rfl, rfl⟩ (.inl le_rfl)

theorem consumptions_orchMove (hs : s.OrchMove s') (hNone : s.orch.consume? = none) :
    s'.consumptions = s.consumptions := by
  cases hs with
  | attach => unfold State.attachProducer; split <;> rfl
  | @submit slot n pc | @alloc slot pc => cases pc <;> rfl
  | release hpc => rw [hpc] at hNone; cases hNone
  | _ => rfl

/-- The scheduler's steps outside of `try_consume` and `release_ref`. -/
theorem otherStep_schedMove (hL : Life s) (hs : s.SchedMove s') (hNone : s.sched.consume? = none) :
    OtherStep s s' ∧ s'.consumptions = s.consumptions := by
  have hIn := inConsume_schedMove hs hNone
  have hState (p : Nat) : s'.state p = .consumed ↔ s.state p = .consumed := by
    rw [consumed_schedMove_iff hL hs p, hNone]
    simp
  have hRel := releases_schedMove hs
  cases hs with
  | consumeSelf hpc | consumeProducer hpc => rw [hpc] at hNone; cases hNone
  | _ => exact ⟨.frame hIn hState hRel ⟨rfl, rfl, rfl, rfl⟩ (.inl le_rfl), rfl⟩

/-- Other steps leave consumption alone. -/
theorem move_kinds (hL : Life s) (hs : Move s s') :
    OtherStep s s' ∧ s'.consumptions = s.consumptions := by
  have hIn (q pc) (_ : pc ≠ ConsumePc.fetchAdd) := inConsume_move hs q pc
  have hState := consumed_move_iff hL hs
  cases hs with
  | scopeBegin hpc hDepth =>
    exact ⟨.frame hIn hState (fun _ => List.Subset.refl _) ⟨rfl, rfl, rfl, rfl⟩ (.inr hDepth), rfl⟩
  | _ =>
    exact ⟨.frame hIn hState (fun _ => List.Subset.refl _) ⟨rfl, rfl, rfl, rfl⟩
      (.inl le_rfl), rfl⟩

theorem consumeStep_orchMove {x : Nat × ConsumePc} (hs : s.OrchMove s')
    (hSome : s.orch.consume? = some x) : ∃ p x pc, ConsumeStep s s' p x pc := by
  cases hs with
  | @release slot pc tasks hpc =>
    refine ⟨_, _, _, .orch .scope (by rw [hpc]; rfl) ?_⟩
    cases s.consumeNext slot pc <;> rfl
  | _ hpc => rw [hpc] at hSome; cases hSome

theorem consumeStep_schedMove {x : Nat × ConsumePc} (hs : s.SchedMove s')
    (hSome : s.sched.consume? = some x) : ∃ p x pc, ConsumeStep s s' p x pc := by
  cases hs with
  | @consumeSelf slot pc hpc =>
    refine ⟨_, _, _, .sched .self (by rw [hpc]; rfl) ?_⟩
    cases s.consumeNext slot pc <;> rfl
  | @consumeProducer slot prod pc producers hpc =>
    refine ⟨_, _, _, .sched (.consumer slot) (by rw [hpc]; rfl) ?_⟩
    cases s.consumeNext prod pc <;> rfl
  | _ hpc =>
    rw [hpc] at hSome; cases hSome

/-- **A step consumes a slot or leaves consumption alone.** -/
theorem step_kinds {a : Act} (hL : Life s) (hR : Refs s) (hs : step s a = some s') :
    (∃ p x pc, ConsumeStep s s' p x pc) ∨ OtherStep s s' ∧ s'.consumptions = s.consumptions := by
  rcases step_cases hs with ⟨-, hm⟩ | ⟨-, hm⟩ | ⟨-, -, hm⟩
  · cases hx : s.orch.consume? with
    | none => exact .inr ⟨otherStep_orchMove hL hR hm hx, consumptions_orchMove hm hx⟩
    | some x => exact .inl (consumeStep_orchMove hm hx)
  · cases hx : s.sched.consume? with
    | none => exact .inr (otherStep_schedMove hL hm hx)
    | some x => exact .inl (consumeStep_schedMove hm hx)
  · exact .inr (move_kinds hL hm)

/-! ## What has happened to a CONSUMED slot -/

/-- The slab of a CONSUMED slot is released, or a thread is on its way to do so. -/
def Freed (s : State) : Prop :=
  ∀ p, s.state p = .consumed →
    s.slabReleased p = true ∨ InConsume s p .erase ∨ InConsume s p .releaseSlab

/-- A slab is released after the CAS. -/
theorem Freed.consume (h : Freed s) (hs : ConsumeStep s s' p x pc) : Freed s' := by
  obtain ⟨-, hKeep, hNext, -, orch, sched, rfl⟩ := hs
  have hslab (q : Nat) (hrel : s.slabReleased q = true) :
      (s.consumeEffect p x pc).slabReleased q = true := by
    cases pc with
    | releaseSlab => simp [State.consumeEffect, update_apply, hrel]
    | _ => exact hrel
  intro q hq
  rcases (consumeEffect_consumed_iff s p x pc q).mp hq with hq | ⟨rfl, rfl, hc⟩
  · rcases h q hq with hq | hq | hq
    · exact .inl (hslab q hq)
    · rcases hKeep q _ hq with hq | ⟨rfl, rfl⟩
      · exact .inr (.inl hq)
      · exact .inr (.inr (hNext _ rfl))
    · rcases hKeep q _ hq with hq | ⟨rfl, rfl⟩
      · exact .inr (.inr hq)
      · exact .inl (by simp [State.consumeEffect])
  · exact .inr (.inl (hNext _ (if_pos hc)))

/-- Slabs are released after the CAS. -/
theorem Freed.reach (h : Reach step ok State.init s) :
    Freed s := by
  refine h.invariant (fun p hp => by cases hp) fun s a s' hr hf _ hs => ?_
  rcases step_kinds (Life.reach hr) (Refs.reach hr) hs with ⟨p, x, pc, hc⟩ | ⟨ho, -⟩
  · exact hf.consume hc
  · intro q hq
    rw [ho.slab, ho.inConsume q _ (by simp), ho.inConsume q _ (by simp)]
    exact hf q ((ho.consumed q).mp hq)

/-- Only a CONSUMED slot has its keys erased and its slab released. -/
structure Won (s : State) : Prop where
  won : ∀ p, InConsume s p .erase ∨ InConsume s p .releaseSlab → s.state p = .consumed
  released : ∀ p, s.slabReleased p = true → s.state p = .consumed

/-- One of the racing calls wins. -/
theorem Won.consume (h : Won s) (hs : ConsumeStep s s' p x pc) : Won s' := by
  obtain ⟨hHere, -, -, hBack, orch, sched, rfl⟩ := hs
  have hStay (q : Nat) (hq : s.state q = .consumed) :
      (s.consumeEffect p x pc).state q = .consumed :=
    (consumeEffect_consumed_iff s p x pc q).mpr (.inl hq)
  refine ⟨fun q hq => ?_, fun q hq => ?_⟩
  · rcases hq with hq | hq <;> rcases hBack q _ hq with hq | ⟨rfl, hn⟩
    · exact hStay q (h.won q (.inl hq))
    · -- the CAS has succeeded
      cases consumeNext_cases hn with
      | won hst => exact (consumeEffect_consumed_iff s q x .cas q).mpr (.inr ⟨rfl, rfl, hst⟩)
    · exact hStay q (h.won q (.inr hq))
    · cases consumeNext_cases hn
      exact hStay q (h.won q (.inl hHere))
  · cases pc with
    | releaseSlab =>
      by_cases hqp : q = p
      · rw [hqp]
        exact hStay p (h.won p (.inr hHere))
      · exact hStay q (h.released q (by simpa [State.consumeEffect, hqp] using hq))
    | _ => exact hStay q (h.released q hq)

/-- One call wins, in every run. -/
theorem Won.reach (h : Reach step ok State.init s) :
    Won s := by
  refine h.invariant ⟨fun p hp => ?_, fun p hp => by cases hp⟩ fun s a s' hr hw _ hs => ?_
  · rcases hp with (hp | hp) | (hp | hp) <;> cases hp
  · rcases step_kinds (Life.reach hr) (Refs.reach hr) hs with ⟨p, x, pc, hc⟩ | ⟨ho, -⟩
    · exact hw.consume hc
    · refine ⟨fun q hq => ?_, fun q hq => ?_⟩
      · rw [ho.inConsume q _ (by simp), ho.inConsume q _ (by simp)] at hq
        exact (ho.consumed q).mpr (hw.won q hq)
      · rw [ho.slab] at hq
        exact (ho.consumed q).mpr (hw.released q hq)

/-- An entry of the map is an output of its slot, whose keys are still to be erased. -/
def Mapped (s : State) : Prop :=
  ∀ k p, s.tensormap.lookup k = some p →
    k ∈ s.outputKeys p ∧ (s.state p ≠ .consumed ∨ InConsume s p .erase)

/-- Entries go after the CAS. -/
theorem Mapped.consume (h : Mapped s) (hs : ConsumeStep s s' p x pc) : Mapped s' := by
  obtain ⟨-, hKeep, hNext, -, orch, sched, rfl⟩ := hs
  intro k q hk
  -- the entry was there, and if the step erases, it is not one of this slot
  have hold : s.tensormap.lookup k = some q ∧ (pc = .erase → k ∉ s.outputKeys p) := by
    cases pc with
    | erase =>
      replace hk : (s.tensormap.eraseTaskOutputs (s.outputKeys p)).lookup k = some q := hk
      rw [TensorMap.lookup_eraseTaskOutputs] at hk
      split_ifs at hk with hmem
      exact ⟨hk, fun _ => hmem⟩
    | _ => exact ⟨hk, nofun⟩
  obtain ⟨hout, hq⟩ := h k q hold.1
  refine ⟨hout, ?_⟩
  have hiff := consumeEffect_consumed_iff s p x pc q
  rcases hq with hq | hq
  · by_cases hc : (s.consumeEffect p x pc).state q = .consumed
    · obtain ⟨rfl, rfl, hcompl⟩ := (hiff.mp hc).resolve_left hq
      exact .inr (hNext _ (if_pos hcompl))
    · exact .inl hc
  · rcases hKeep q _ hq with hq | ⟨rfl, rfl⟩
    · exact .inr hq
    · exact absurd hout (hold.2 rfl)

/-- Map entries follow their tasks. -/
theorem Mapped.reach (h : Reach step ok State.init s) :
    Mapped s := by
  refine h.invariant (fun k p hk => by cases hk) fun s a s' hr hm _ hs => ?_
  rcases step_kinds (Life.reach hr) (Refs.reach hr) hs with ⟨p, x, pc, hc⟩ | ⟨ho, -⟩
  · exact hm.consume hc
  · intro k q hk
    rw [ne_eq, ho.consumed q, ho.inConsume q _ (by simp)]
    rcases ho.mapped k q hk with hk | ⟨hout, hq⟩
    · obtain ⟨hout, hq⟩ := hm k q hk
      exact ⟨ho.keys q hout, hq⟩
    · exact ⟨hout, .inl hq⟩

/-- Own completion and scope have released a slot that is CONSUMED or about to be. A consumer
that was attached late may have not. -/
structure Passed (s : State) : Prop where
  read : ∀ p r, InConsume s p (.readTotal r) → r ≤ (s.releases p).length ∧ 0 < r
  passed : ∀ p, s.state p = .consumed ∨ InConsume s p .loadState ∨ InConsume s p .cas →
    .self ∈ s.releases p ∧ (s.inScope p = true → .scope ∈ s.releases p)

theorem passed_init : Passed State.init where
  read _ _ h := by rcases h with h | h <;> cases h
  passed _ h := by rcases h with h | (h | h) | (h | h) <;> cases h

/-- Who consumes has seen all releases. -/
theorem Passed.consume (hR : Refs s) (hR' : Refs s') (h : Passed s) (hs : ConsumeStep s s' p x pc) :
    Passed s' := by
  obtain ⟨hHere, -, -, hBack, orch, sched, rfl⟩ := hs
  have hRel := consumeEffect_releases s p x pc
  have hMono (q : Nat) (hq : .self ∈ s.releases q ∧ (s.inScope q = true → .scope ∈ s.releases q)) :
      .self ∈ (s.consumeEffect p x pc).releases q ∧
        (s.inScope q = true → .scope ∈ (s.consumeEffect p x pc).releases q) :=
    ⟨hRel q hq.1, fun hin => hRel q (hq.2 hin)⟩
  -- what the comparison with the total and the load stand on
  have hPass (pc' : ConsumePc) (hn : s.consumeNext p pc = some pc')
      (hpc : pc' = .loadState ∨ pc' = .cas) :
      .self ∈ s.releases p ∧ (s.inScope p = true → .scope ∈ s.releases p) := by
    cases consumeNext_cases hn with
    | reached hle =>
      have hall := hR.allReleased (h.read p _ hHere).1 (h.read p _ hHere).2 hle
      exact ⟨hall List.mem_cons_self, fun hin => hall (by simp [expected, hin])⟩
    | completed => exact h.passed p (.inr (.inl hHere))
    | _ => simp at hpc
  refine ⟨fun q r hq => ?_, fun q hq => ?_⟩
  · rcases hBack q _ hq with hq | ⟨rfl, hn⟩
    · have := h.read q r hq
      exact ⟨le_trans this.1 (hR.nodup q |>.subperm (hRel q)).length_le, this.2⟩
    · cases consumeNext_cases hn
      -- the value of the `fetch_add` is the length of the history
      have hmem : x ∈ (s.consumeEffect q x .fetchAdd).releases q := by
        simp [State.consumeEffect]
      have hcount := hR'.count q (hR'.not_totalling_of_mem hmem)
      simp only [State.consumeEffect, update_self] at hcount ⊢
      omega
  · rcases hq with hq | hq | hq
    · rcases (consumeEffect_consumed_iff s p x pc q).mp hq with hq | ⟨rfl, hcas, -⟩
      · exact hMono q (h.passed q (.inl hq))
      · exact hMono q (h.passed q (.inr (.inr (hcas ▸ hHere))))
    · rcases hBack q _ hq with hq | ⟨rfl, hn⟩
      · exact hMono q (h.passed q (.inr (.inl hq)))
      · exact hMono q (hPass _ hn (.inl rfl))
    · rcases hBack q _ hq with hq | ⟨rfl, hn⟩
      · exact hMono q (h.passed q (.inr (.inr hq)))
      · exact hMono q (hPass _ hn (.inr rfl))

/-- Who consumes has seen all releases. -/
theorem Passed.reach (h : Reach step ok State.init s) :
    Passed s := by
  refine h.invariant passed_init fun s a s' hr hp hok hs => ?_
  have hR := Refs.reach hr
  rcases step_kinds (Life.reach hr) hR hs with ⟨p, x, pc, hc⟩ | ⟨ho, -⟩
  · exact hp.consume hR (Refs.reach (.step hr hok hs)) hc
  · refine ⟨fun q r hq => ?_, fun q hq => ?_⟩
    · have := hp.read q r ((ho.inConsume q _ (by simp)).mp hq)
      exact ⟨le_trans this.1 (hR.nodup q |>.subperm (ho.released q)).length_le, this.2⟩
    · rw [ho.consumed q, ho.inConsume q _ (by simp), ho.inConsume q _ (by simp)] at hq
      obtain ⟨hself, hscope⟩ := hp.passed q hq
      refine ⟨ho.released q hself, fun hin => ?_⟩
      rcases ho.scope q hin with hin | hnil
      · exact ho.released q (hscope hin)
      · rw [hnil] at hself
        cases hself

def DepthOk (s : State) : Prop := s.scopes.length ≤ maxScopeDepth

theorem DepthOk.reach (h : Reach step ok State.init s) :
    DepthOk s := by
  refine h.invariant (Nat.zero_le _) fun s a s' hr hd _ hs => ?_
  rcases step_kinds (Life.reach hr) (Refs.reach hr) hs with ⟨p, x, pc, hc⟩ | ⟨ho, -⟩
  · obtain ⟨orch, sched, rfl⟩ := hc.effect
    exact hd
  · exact ho.depth.elim (fun hle => le_trans hle hd) id

end PtoRuntime.Hier
