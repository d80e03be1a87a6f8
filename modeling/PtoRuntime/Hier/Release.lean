import PtoRuntime.Hier.Consumption

/-!
# Hierarchical runtime — no early release

A slot may be moved to CONSUMED, its keys erased and its slab released, only after its
own completion, the end of its scope and the completions of all its consumers have
each released it once. Both `try_consume` and `release_ref` read `fanout_total` in a
`fanout_mu` section and change the state in a later step: a consumer that attaches to
the slot in between is not waited for.
-/

namespace PtoRuntime.Hier

open Lib List

/-! ## Consuming -/

/-- The slot whose total the scheduler has read and found reached. -/
def SchedPc.passed? : SchedPc → Option Nat
  | .consumeSelf slot .loadState | .consumeSelf slot .cas => some slot
  | .consumeProducer _ prod .loadState _ | .consumeProducer _ prod .cas _ => some prod
  | _ => none

/-- No consumer is attached to a slot between the scheduler's reading of its
`fanout_total` and the CAS. -/
def ReleaseGuard (s : State) : Act → Prop
  | .orch => ∀ p ∈ s.orch.attaching?, s.sched.passed? ≠ some p
  | _ => True

instance : DecidableRel ReleaseGuard := fun s a =>
  match a with
  | .orch => inferInstanceAs (Decidable (∀ p ∈ s.orch.attaching?, _))
  | .sched | .submit .. | .alloc _ | .scopeBegin | .scopeEnd | .reserve _ | .shutdown
  | .popCompletion | .popReady _ | .dispatch | .noWorker | .workerDone _ =>
    inferInstanceAs (Decidable True)

structure Consume (s : State) : Prop where
  read : ∀ p r, InConsume s p (.readTotal r) → r ≤ (s.releases p).length ∧ 0 < r
  passed : ∀ p, InConsume s p .loadState ∨ InConsume s p .cas → AllReleased s p
  won : ∀ p, InConsume s p .erase ∨ InConsume s p .releaseSlab → s.state p = .consumed
  consumed : ∀ p, s.state p = .consumed → AllReleased s p
  once : ∀ p, s.consumptions p = if s.state p = .consumed then 1 else 0
  freed : ∀ p, s.slabReleased p = true → s.state p = .consumed

theorem consume_init : Consume State.init where
  read _ _ h := by rcases h with h | h <;> cases h
  passed _ h := by rcases h with (h | h) | (h | h) <;> cases h
  won _ h := by rcases h with (h | h) | (h | h) <;> cases h
  consumed _ h := by cases h
  once _ := rfl
  freed _ h := by cases h

variable {s s' : State} {p : Nat}

/-- A step of `try_consume` or `release_ref`, whichever thread is in it. -/
theorem Consume.allReleased_consume {x : Holder} {pc : ConsumePc} (hR : Refs s) (h : Consume s)
    (hs : ConsumeStep s s' p x pc) (q : Nat)
    (hq : s'.state q = .consumed ∨ InConsume s' q .loadState ∨ InConsume s' q .cas) :
    AllReleased s' q := by
  obtain ⟨hHere, -, -, hBack, orch, sched, rfl⟩ := hs
  -- what the comparison with the total and the load stand on
  have hPass (pc' : ConsumePc) (hn : s.consumeNext p pc = some pc')
      (hpc : pc' = .loadState ∨ pc' = .cas) : AllReleased s p := by
    cases consumeNext_cases hn with
    | reached hle => exact hR.allReleased (h.read p _ hHere).1 (h.read p _ hHere).2 hle
    | completed => exact h.passed p (.inl hHere)
    | _ => simp at hpc
  have hold : AllReleased s q := by
    rcases hq with hq | hq | hq
    · rcases (consumeEffect_consumed_iff s p x pc q).mp hq with hq | ⟨rfl, rfl, -⟩
      · exact h.consumed q hq
      · exact h.passed q (.inr hHere)
    · rcases hBack q _ hq with hq | ⟨rfl, hn⟩
      · exact h.passed q (.inl hq)
      · exact hPass _ hn (.inl rfl)
    · rcases hBack q _ hq with hq | ⟨rfl, hn⟩
      · exact h.passed q (.inr hq)
      · exact hPass _ hn (.inr rfl)
  exact List.Subset.trans hold (consumeEffect_releases s p x pc q)

theorem Consume.once_consume {x : Holder} {pc : ConsumePc} (h : Consume s)
    (hs : ConsumeStep s s' p x pc) (q : Nat) :
    s'.consumptions q = if s'.state q = .consumed then 1 else 0 := by
  obtain ⟨-, -, -, -, orch, sched, rfl⟩ := hs
  have hq := h.once q
  cases pc with
  | cas =>
    simp only [State.consumeEffect]
    split
    · rename_i hc
      by_cases hqp : q = p
      · subst hqp
        simp [hq, hc]
      · simpa [hqp] using hq
    · exact hq
  | _ => exact hq

/-- Registration changes what is expected of a slot nobody has released. -/
theorem expected_register (hR : Refs s) {slot : Nat} (hTot : s.orch.totalling? = some slot)
    (p : Nat) :
    expected (s.registerTask slot) p = expected s p ∨ s.releases p = [] := by
  by_cases hp : p = slot
  · exact .inr (hR.fresh p (.inl (hp ▸ hTot)))
  · left
    simp only [expected, State.registerTask]
    split
    · rfl
    · rw [Function.update_of_ne hp]

/-- What is expected of a slot that somebody has released grows only where a consumer attaches
to it. -/
theorem expected_orchMove (hR : Refs s) (hs : s.OrchMove s') (p : Nat) :
    (expected s' p = expected s p ∨ s.releases p = []) ∨
      (s.orch.attaching? = some p ∧ s.state p ≠ .consumed) := by
  cases hs with
  | @attach slot prod producers n hpc =>
    unfold State.attachProducer
    split
    · exact .inl (.inl rfl)
    · rename_i hc
      by_cases hp : p = prod
      · subst hp
        exact .inr ⟨by rw [hpc]; rfl, hc⟩
      · exact .inl (.inl (by simp [expected, hp]))
  | @submit slot n pc hpc | @alloc slot pc hpc =>
    cases pc with
    | fanoutReleased => exact .inl (expected_register hR (by rw [hpc]; rfl) p)
    | _ => exact .inl (.inl rfl)
  | _ => exact .inl (.inl rfl)

theorem passed_of_consume {pc : SchedPc} {c : ConsumePc} (h : pc.consume? = some (p, c))
    (hc : c = .loadState ∨ c = .cas) : pc.passed? = some p := by
  cases pc <;> cases h <;> rcases hc with rfl | rfl <;> rfl

/-- The guard keeps what is expected of a slot that is CONSUMED or about to be. -/
theorem expected_step {a : Act} (hR : Refs s) (hok : ReleaseGuard s a) (hs : step s a = some s')
    (hall : AllReleased s p)
    (hp : s.state p = .consumed ∨ InConsume s p .loadState ∨ InConsume s p .cas) :
    expected s' p = expected s p := by
  rcases step_cases hs with ⟨rfl, hm⟩ | ⟨-, hm⟩ | ⟨-, -, hm⟩
  · rcases expected_orchMove hR hm p with (he | hnil) | ⟨hatt, hst⟩
    · exact he
    · have hself : Holder.self ∈ s.releases p := hall List.mem_cons_self
      rw [hnil] at hself
      cases hself
    · -- nobody is consuming the slot that gets a consumer
      have hpass := hok p hatt
      have horch (c : ConsumePc) : s.orch.consume? ≠ some (p, c) := by
        intro hc
        cases hpc : s.orch with
        | release => rw [hpc] at hatt; cases hatt
        | _ => rw [hpc] at hc; cases hc
      rcases hp with hp | (hp | hp) | (hp | hp)
      · exact absurd hp hst
      · exact absurd hp (horch _)
      · exact absurd (passed_of_consume hp (.inl rfl)) hpass
      · exact absurd hp (horch _)
      · exact absurd (passed_of_consume hp (.inr rfl)) hpass
  · cases hm <;> rfl
  · cases hm <;> rfl

theorem Consume.reach (h : Reach step ReleaseGuard State.init s) : Consume s := by
  refine h.invariant consume_init fun s a s' hr hc hok hs => ?_
  have hR := Refs.reach hr
  have hP := Passed.reach (.step hr hok hs)
  have hW := Won.reach (.step hr hok hs)
  rcases step_kinds (Life.reach hr) hR hs with ⟨p, x, pc, hstep⟩ | ⟨ho, hOnce⟩
  · have hAll := hc.allReleased_consume hR hstep
    exact ⟨hP.read, fun q hq => hAll q (.inr hq), hW.won, fun q hq => hAll q (.inl hq),
      hc.once_consume hstep, hW.released⟩
  · have hAll (q : Nat) (hall : AllReleased s q)
        (hq : s.state q = .consumed ∨ InConsume s q .loadState ∨ InConsume s q .cas) :
        AllReleased s' q := by
      rw [AllReleased, expected_step hR hok hs hall hq]
      exact List.Subset.trans hall (ho.released q)
    refine ⟨hP.read, fun q hq => ?_, hW.won, fun q hq => ?_, fun q => ?_, hW.released⟩
    · rw [ho.inConsume q _ (by simp), ho.inConsume q _ (by simp)] at hq
      exact hAll q (hc.passed q hq) (.inr hq)
    · rw [ho.consumed q] at hq
      exact hAll q (hc.consumed q hq) (.inl hq)
    · rw [hOnce, hc.once q]
      simp only [ho.consumed q]

/-- What has to have happened to a slot before it may be consumed: it completed and
released itself, the end of its scope released it, and every consumer completed and
released it. -/
structure ReleasedByAll (s : State) (p : Nat) : Prop where
  completed : Done s p ∧ .self ∈ s.releases p
  scope : s.inScope p = true → .scope ∈ s.releases p ∧ p ∉ openTasks s
  consumers : ∀ c ∈ s.fanoutConsumers p, Done s c ∧ .consumer c ∈ s.releases p

/--
**No early release, under the guard.** In every run in which no consumer is attached to
a slot between the scheduler's reading of its `fanout_total` and the CAS: a slot that is
CONSUMED, or whose slab is released, has completed, its scope has released it and each
of its consumers has completed and released it; and no slot is consumed twice.
-/
theorem consumed_after_releases {s : State} (hReach : Reach step ReleaseGuard State.init s)
    (p : Nat) : (s.state p = .consumed ∨ s.slabReleased p = true → ReleasedByAll s p) ∧
      s.consumptions p ≤ 1 := by
  have hR := Refs.reach hReach
  have hC := Consume.reach hReach
  refine ⟨fun hp => ?_, ?_⟩
  · have hst : s.state p = .consumed := hp.elim id (hC.freed p)
    have hall := hC.consumed p hst
    refine ⟨⟨.inr hst, hall List.mem_cons_self⟩, fun hin => ?_, fun c hc => ?_⟩
    · have hscope : Holder.scope ∈ s.releases p := hall (by simp [expected, hin])
      exact ⟨hscope, fun ho => (hR.openTask p ho).2 hscope⟩
    · have hcons : Holder.consumer c ∈ s.releases p := hall (by simp [expected, hc])
      refine ⟨?_, hcons⟩
      by_contra hn
      exact hR.consumerAhead c p (.inl hn) hcons
  · rw [hC.once p]
    split <;> omega

/-- Slot 0 writes `A` in a scope and slot 1 reads it; both complete, and the end of the
scope consumes slot 0. -/
def consumeByScope : List Act :=
  [Act.scopeBegin] ++ wakeConsumer ++ replicate 7 Act.sched ++ startTask ++
    [Act.workerDone 1, .popCompletion] ++ replicate 10 Act.sched ++
    [Act.scopeEnd] ++ replicate 8 Act.orch

theorem consumed_after_releases_consumeByScope :
    ∃ s, Reach step ReleaseGuard State.init s ∧ s.state 0 = .consumed ∧
      1 ∈ s.fanoutConsumers 0 ∧ ReleasedByAll s 0 := by
  refine Reach.exists_of_run_imp (P := fun s => s.state 0 = .consumed ∧ 1 ∈ s.fanoutConsumers 0)
    consumeByScope (by decide) fun s hReach ⟨hst, hc⟩ => ?_
  exact ⟨hst, hc, (consumed_after_releases hReach 0).1 (.inl hst)⟩

/-- The scope of slot 0 has ended and slot 0 completes; after the scheduler has read its
total, slot 1 attaches to it. -/
def attachBeforeCas : List Act :=
  [Act.scopeBegin] ++ submitWriter tensorA ++ [Act.scopeEnd] ++ replicate 4 Act.orch ++ startTask ++
    [Act.workerDone 0, .popCompletion] ++ replicate 6 Act.sched ++
    [Act.submit .sub [[(tensorA, .input)]] [], .reserve 0] ++ replicate 4 Act.orch ++ [Act.sched]

/-- Slot 0 is CONSUMED while its consumer 1 is not even submitted to the end. -/
theorem consumed_before_consumer :
    ∃ s, Reach step free State.init s ∧ s.state 0 = .consumed ∧
      1 ∈ s.fanoutConsumers 0 ∧ ¬ Done s 1 :=
  Reach.exists_of_run attachBeforeCas (by decide)

/-! ## Whatever the interleaving -/

variable {ok : State → Act → Prop}

theorem consumeByScope_ends : ∃ s, Reach step free State.init s ∧ s.orch = .scopeEnd [1] ∧
    s.state 0 = .consumed ∧ 1 ∈ s.fanoutConsumers 0 :=
  Reach.exists_of_run consumeByScope (by decide)

/-- No slot is released more often than `try_consume` waits for. -/
theorem released_le_threshold (h : Reach step ok State.init s) (hp : s.orch.totalling? ≠ some p) :
    s.fanoutReleased p ≤ s.fanoutTotal p + 1 := by
  have hR := Refs.reach h
  have hle := ((hR.nodup p).subperm (hR.expected p)).length_le
  rw [hR.count p hp, hR.total p hp]
  simpa [expected, apply_ite length] using hle

theorem released_le_threshold_consumed : ∃ s, Reach step free State.init s ∧
    s.state 0 = .consumed ∧ s.fanoutReleased 0 ≤ s.fanoutTotal 0 + 1 := by
  obtain ⟨s, h, ho, hc, -⟩ := consumeByScope_ends
  exact ⟨s, h, hc, released_le_threshold h (by rw [ho]; rintro ⟨⟩)⟩

/-- Only the winner of the CAS releases the slab. -/
theorem consumed_iff_slab (h : Reach step ok State.init s) : s.state p = .consumed ↔
    s.slabReleased p = true ∨ InConsume s p .erase ∨ InConsume s p .releaseSlab :=
  ⟨Freed.reach h p, fun hp => hp.elim ((Won.reach h).released p) ((Won.reach h).won p)⟩

theorem consumed_iff_slab_consumed : ∃ s, Reach step free State.init s ∧ s.state 0 = .consumed ∧
    (s.slabReleased 0 = true ∨ InConsume s 0 .erase ∨ InConsume s 0 .releaseSlab) := by
  obtain ⟨s, h, -, hc, -⟩ := consumeByScope_ends
  exact ⟨s, h, hc, (consumed_iff_slab h).mp hc⟩

/-- The task graph has no cycle. -/
theorem graph_acyclic (h : Reach step ok State.init s) :
    ¬ Relation.TransGen (fun p c => c ∈ s.fanoutConsumers p) p p := by
  have hE := Edges.reach h
  intro hc
  -- consumers are newer than what they consume
  have hlt : Relation.TransGen (· < ·) p p :=
    .mono (fun p c hc => (hE.older p c ((hE.consumer_iff p c).mp hc)).1) _ _ hc
  rw [Relation.transGen_eq_self] at hlt
  exact lt_irrefl p hlt

theorem graph_acyclic_edge : ∃ s, Reach step free State.init s ∧ 1 ∈ s.fanoutConsumers 0 ∧
    ¬ Relation.TransGen (fun p c => c ∈ s.fanoutConsumers p) 0 0 := by
  obtain ⟨s, h, -, -, hc⟩ := consumeByScope_ends
  exact ⟨s, h, hc, graph_acyclic h⟩

end PtoRuntime.Hier
