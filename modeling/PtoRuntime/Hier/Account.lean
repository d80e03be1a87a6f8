import PtoRuntime.Hier.NoLeak

/-!
# Hierarchical runtime — what `active_tasks_` counts

`submit_impl` adds one to `active_tasks_` before it asks the allocator for a slot, `alloc` after
it has set its slot up, and `on_consumed` takes one off after the CAS, the erasure of the keys
and the release of the slab. In every reachable state the counter is the number of slots that
are not CONSUMED, corrected for the calls under way.

A counter of zero therefore means that nothing is left: every slot is CONSUMED and its slab
released, no slot is queued, dispatched or running, the map is empty and the open scopes have no
tasks.

Main results: `Account.reach`, `AllocOk.reach`, `active_pos`, `Account.zero_iff`, `nothing_left`.
-/

namespace PtoRuntime.Hier

open Lib List

/-! ## The counter -/

/-- The CAS to CONSUMED has succeeded and the counter is still to be lowered. -/
def ConsumePc.won : ConsumePc → Nat
  | .erase | .releaseSlab | .decActive => 1
  | _ => 0

def OrchPc.won : OrchPc → Nat
  | .release _ pc _ => pc.won
  | _ => 0

def SchedPc.won : SchedPc → Nat
  | .consumeSelf _ pc | .consumeProducer _ _ pc _ => pc.won
  | _ => 0

/-- A submission that has raised the counter and has no slot yet. -/
def OrchPc.reserving : OrchPc → Nat
  | .reserve .. => 1
  | _ => 0

/-- An allocation that has its slot and has not raised the counter. -/
def OrchPc.allocating : OrchPc → Nat
  | .alloc .. => 1
  | _ => 0

/-- Slots handed out and not CONSUMED. -/
def unconsumed (s : State) : Finset Nat :=
  (Finset.range s.nextTaskId).filter fun p => s.state p ≠ .consumed

variable {s s' : State} {p : Nat} {ok : State → Act → Prop}

theorem mem_unconsumed :
    p ∈ unconsumed s ↔ p < s.nextTaskId ∧ s.state p ≠ .consumed := by
  rw [unconsumed, Finset.mem_filter, Finset.mem_range]

def Account (s : State) : Prop :=
  s.activeTasks + s.orch.allocating =
    (unconsumed s).card + s.orch.won + s.sched.won + s.orch.reserving

theorem account_init : Account State.init := rfl

theorem unconsumed_congr (hNext : s'.nextTaskId = s.nextTaskId)
    (hState : ∀ p, s'.state p = .consumed ↔ s.state p = .consumed) :
    unconsumed s' = unconsumed s := by
  ext p
  rw [mem_unconsumed, mem_unconsumed, hNext, ne_eq, ne_eq, hState]

/-- A new slot is not CONSUMED. -/
theorem card_unconsumed_reserve (hL : Life s) (hNext : s'.nextTaskId = s.nextTaskId + 1)
    (hState : s'.state = s.state) :
    (unconsumed s').card = (unconsumed s).card + 1 := by
  have hfresh := hL.not_consumed (hL.fresh s.nextTaskId le_rfl) (by simp)
  have heq : unconsumed s' = insert s.nextTaskId (unconsumed s) := by
    ext p
    rw [Finset.mem_insert, mem_unconsumed, mem_unconsumed, hNext, hState]
    constructor
    · rintro ⟨hlt, hne⟩
      rcases Nat.lt_succ_iff_lt_or_eq.mp hlt with hlt | rfl
      · exact .inr ⟨hlt, hne⟩
      · exact .inl rfl
    · rintro (rfl | ⟨hlt, hne⟩)
      · exact ⟨Nat.lt_succ_self _, hfresh⟩
      · exact ⟨Nat.lt_succ_of_lt hlt, hne⟩
  rw [heq, Finset.card_insert_of_notMem fun h => absurd (mem_unconsumed.mp h).1 (lt_irrefl _)]

/-- A step of `try_consume` or `release_ref`: what leaves the set of unconsumed slots is counted
by the thread until it lowers the counter. -/
theorem account_consumeEffect (hL : Life s) (slot : Nat) (x : Holder) (pc : ConsumePc)
    (hState : s'.state = (s.consumeEffect slot x pc).state) (hNext : s'.nextTaskId = s.nextTaskId) :
    ((unconsumed s').card : Int) + ((s.consumeNext slot pc).elim 0 ConsumePc.won : Nat) -
        (s.consumeEffect slot x pc).activeTasks =
      (unconsumed s).card + pc.won - s.activeTasks := by
  have hiff (p : Nat) := consumeEffect_consumed_iff s slot x pc p
  by_cases hcas : pc = .cas ∧ s.state slot = .completed
  · obtain ⟨rfl, hc⟩ := hcas
    have hlt : slot < s.nextTaskId := hL.lt_of_phase fun hun => by
      have := hL.allows slot
      rw [hun, hc] at this
      cases this
    have hmem : slot ∈ unconsumed s := mem_unconsumed.mpr ⟨hlt, by rw [hc]; simp⟩
    have heq : unconsumed s' = (unconsumed s).erase slot := by
      ext p
      rw [Finset.mem_erase, mem_unconsumed, mem_unconsumed, hNext, hState, ne_eq, hiff p]
      by_cases hp : p = slot
      · simp [hp, hc]
      · simp [hp]
    have hpos := Finset.card_pos.mpr ⟨slot, hmem⟩
    rw [heq, Finset.card_erase_of_mem hmem]
    simp only [State.consumeNext, hc, if_true, Option.elim_some, ConsumePc.won, State.consumeEffect]
    omega
  · have heq : unconsumed s' = unconsumed s := by
      refine unconsumed_congr hNext fun p => ?_
      rw [hState, hiff p]
      refine ⟨fun h => h.elim id ?_, .inl⟩
      rintro ⟨rfl, hpc, hc⟩
      exact absurd ⟨hpc, hc⟩ hcas
    rw [heq]
    cases pc with
    | cas =>
      have hc : s.state slot ≠ .completed := fun hc => hcas ⟨rfl, hc⟩
      simp [State.consumeNext, hc, ConsumePc.won, State.consumeEffect]
    | readTotal r | loadState =>
      simp only [State.consumeNext, State.consumeEffect]
      split <;> simp [ConsumePc.won]
    | decActive =>
      simp only [State.consumeNext, ConsumePc.won, State.consumeEffect, Option.elim_none]
      omega
    | _ => simp [State.consumeNext, ConsumePc.won, State.consumeEffect]

/-- A consumed task is not counted. -/
theorem Account.consume (hL : Life s) (h : Account s) (slot : Nat) (x : Holder) (pc : ConsumePc)
    (hState : s'.state = (s.consumeEffect slot x pc).state) (hNext : s'.nextTaskId = s.nextTaskId)
    (hActive : s'.activeTasks = (s.consumeEffect slot x pc).activeTasks)
    (hOrch : s'.orch.allocating = s.orch.allocating ∧ s'.orch.reserving = s.orch.reserving)
    (hWon : s'.orch.won + s'.sched.won + pc.won =
      s.orch.won + s.sched.won + (s.consumeNext slot pc).elim 0 ConsumePc.won) : Account s' := by
  have hstep := account_consumeEffect hL slot x pc hState hNext
  unfold Account at h ⊢
  rw [hActive, hOrch.1, hOrch.2]
  omega

/-- A step of the orchestrator. -/
theorem account_orchMove (hL : Life s) (h : Account s) (hs : s.OrchMove s') :
    Account s' := by
  have hSched := orchMove_sched hs
  have hiff := consumed_orchMove_iff hL hs
  -- outside of `release_ref` nothing is consumed
  have hCard (hNone : s.orch.consume? = none) (hNext : s'.nextTaskId = s.nextTaskId) :
      unconsumed s' = unconsumed s :=
    unconsumed_congr hNext fun p => by rw [hiff p, hNone]; simp
  cases hs with
  | attach hpc =>
    have hFrame (slot prod n : Nat) (producers : List Nat) :
        (s.attachProducer slot prod producers n).nextTaskId = s.nextTaskId ∧
          (s.attachProducer slot prod producers n).activeTasks = s.activeTasks ∧
          ∃ m, (s.attachProducer slot prod producers n).orch = .attach slot producers m := by
      unfold State.attachProducer
      split <;> exact ⟨rfl, rfl, _, rfl⟩
    obtain ⟨hNext, hActive, m, hOrch⟩ := hFrame _ _ _ _
    unfold Account at h ⊢
    rw [hCard (by rw [hpc]; rfl) hNext, hActive, hOrch, hSched]
    rw [hpc] at h
    exact h
  | @submit slot n pc hpc =>
    unfold Account at h ⊢
    rw [hCard (by rw [hpc]; rfl) (by cases pc <;> rfl)]
    rw [hpc] at h
    cases pc with
    | state =>
      simp only [State.submitStep]
      split <;> exact h
    | _ => exact h
  | @alloc slot pc hpc =>
    unfold Account at h ⊢
    rw [hCard (by rw [hpc]; rfl) (by cases pc <;> rfl)]
    rw [hpc] at h
    cases pc with
    | active =>
      simp only [State.allocStep, OrchPc.allocating, OrchPc.won, OrchPc.reserving] at h ⊢
      omega
    | _ => exact h
  | @release slot pc tasks hpc =>
    refine Account.consume hL h slot .scope pc rfl rfl rfl ?_ ?_
    · rw [hpc]
      simp only
      split <;> exact ⟨rfl, rfl⟩
    · rw [hpc]
      simp only [OrchPc.won]
      cases s.consumeNext slot pc <;> simp [State.consumeEffect] <;> omega
  | _ hpc =>
    unfold Account at h ⊢
    rw [hCard (by rw [hpc]; rfl) rfl]
    rw [hpc] at h
    exact h

/-- A step of the scheduler. -/
theorem account_schedMove (hL : Life s) (h : Account s) (hs : s.SchedMove s') :
    Account s' := by
  have hiff := consumed_schedMove_iff hL hs
  have hCard (hNone : s.sched.consume? = none) (hNext : s'.nextTaskId = s.nextTaskId) :
      unconsumed s' = unconsumed s :=
    unconsumed_congr hNext fun p => by rw [hiff p, hNone]; simp
  cases hs with
  | check hpc =>
    unfold Account at h ⊢
    rw [hCard (by rw [hpc]; rfl) rfl]
    rw [hpc] at h
    simp only
    split <;> exact h
  | @consumeSelf slot pc hpc =>
    refine Account.consume hL h slot .self pc rfl rfl rfl ⟨rfl, rfl⟩ ?_
    rw [hpc]
    cases s.consumeNext slot pc with
    | none => rfl
    | some pc' =>
      show s.orch.won + pc'.won + pc.won = s.orch.won + pc.won + pc'.won
      omega
  | @consumeProducer slot prod pc producers hpc =>
    refine Account.consume hL h prod (.consumer slot) pc rfl rfl rfl ⟨rfl, rfl⟩ ?_
    rw [hpc]
    cases s.consumeNext prod pc with
    | none => rfl
    | some pc' =>
      show s.orch.won + pc'.won + pc.won = s.orch.won + pc.won + pc'.won
      omega
  | _ hpc =>
    unfold Account at h ⊢
    rw [hCard (by rw [hpc]; rfl) rfl]
    rw [hpc] at h
    exact h

theorem account_move (hL : Life s) (h : Account s) (hs : Move s s') :
    Account s' := by
  have hCard (hNext : s'.nextTaskId = s.nextTaskId) : unconsumed s' = unconsumed s :=
    unconsumed_congr hNext (consumed_move_iff hL hs)
  have hNew (hNext : s'.nextTaskId = s.nextTaskId + 1) (hState : s'.state = s.state) :=
    card_unconsumed_reserve hL hNext hState
  unfold Account at h ⊢
  cases hs with
  | submit hpc | shutdown hpc =>
    rw [hCard rfl]
    rw [hpc] at h
    simp only [OrchPc.allocating, OrchPc.won, OrchPc.reserving] at h ⊢
    omega
  | alloc hpc =>
    rw [hNew rfl rfl]
    rw [hpc] at h
    simp only [OrchPc.allocating, OrchPc.won, OrchPc.reserving] at h ⊢
    omega
  | @reserve wt argsList affinities heapPtr hpc =>
    rw [hNew rfl rfl]
    rw [hpc] at h
    simp only [State.reserve, OrchPc.allocating, OrchPc.won, OrchPc.reserving] at h ⊢
    omega
  | scopeBegin | workerDone =>
    rw [hCard rfl]
    exact h
  | _ hpc =>
    rw [hCard rfl]
    rw [hpc] at h
    exact h

/-- **What the counter counts.** -/
theorem Account.reach (h : Reach step ok State.init s) :
    Account s := by
  refine h.invariant account_init fun s a s' hr ha _ hs => ?_
  have hL := Life.reach hr
  rcases step_cases hs with ⟨-, hm⟩ | ⟨-, hm⟩ | ⟨-, -, hm⟩
  · exact account_orchMove hL ha hm
  · exact account_schedMove hL ha hm
  · exact account_move hL ha hm

/-! ## The slot that `alloc` is setting up -/

/-- Nobody knows the slot of an allocation under way. -/
structure AllocOk (s : State) : Prop where
  old : ∀ p pc, s.sched.consume? = some (p, pc) → p < s.nextTaskId
  newest : ∀ slot pc, s.orch = .alloc slot pc → slot + 1 = s.nextTaskId
  self : ∀ slot, s.orch = .alloc slot .active → .self ∈ s.releases slot
  nobody : ∀ slot pc pc', s.orch = .alloc slot pc → s.sched.consume? ≠ some (slot, pc')
  alive : ∀ slot pc, s.orch = .alloc slot pc → s.state slot ≠ .consumed

theorem allocOk_init : AllocOk State.init where
  old _ _ h := by cases h
  newest _ _ h := by cases h
  self _ h := by cases h
  nobody _ _ _ h := by cases h
  alive _ _ h := by cases h

theorem alloc_of_orchMove (hs : s.OrchMove s') {slot : Nat} {pc : AllocPc}
    (h : s'.orch = .alloc slot pc) :
    ∃ pc₀, s.orch = .alloc slot pc₀ ∧ s' = s.allocStep slot pc₀ := by
  cases hs with
  | @alloc slot₀ pc₀ hpc =>
    have hslot : slot₀ = slot := by cases pc₀ <;> cases h <;> rfl
    subst hslot
    exact ⟨pc₀, hpc, rfl⟩
  | attach => unfold State.attachProducer at h; split at h <;> cases h
  | @submit slot₀ n pc₀ hpc =>
    cases pc₀ with
    | state => simp only [State.submitStep] at h; split at h <;> cases h
    | _ => cases h
  | release => simp only at h; split at h <;> cases h
  | _ => cases h

/-- A step of the orchestrator. -/
theorem allocOk_orchMove (hL : Life s) (h : AllocOk s) (hs : s.OrchMove s') :
    AllocOk s' := by
  have hSched := orchMove_sched hs
  have hiff := consumed_orchMove_iff hL hs
  have hNext : s'.nextTaskId = s.nextTaskId := by
    cases hs with
    | attach => unfold State.attachProducer; split <;> rfl
    | @submit slot n pc => cases pc <;> rfl
    | @alloc slot pc => cases pc <;> rfl
    | _ => rfl
  refine ⟨fun p pc hp => ?_, fun slot pc hpc => ?_, fun slot hpc => ?_, fun slot pc pc' hpc => ?_,
    fun slot pc hpc => ?_⟩
  · rw [hSched] at hp
    rw [hNext]
    exact h.old p pc hp
  all_goals obtain ⟨pc₀, hpc₀, heq⟩ := alloc_of_orchMove hs hpc
  · rw [hNext]
    exact h.newest slot pc₀ hpc₀
  · subst heq
    cases pc₀ <;> cases hpc
    simp [State.allocStep]
  · rw [hSched]
    exact h.nobody slot pc₀ pc' hpc₀
  · rw [ne_eq, hiff, hpc₀]
    rintro (hc | ⟨hc, -⟩)
    · exact h.alive slot pc₀ hpc₀ hc
    · cases hc

/-- Which slots the scheduler comes to consume. -/
theorem consume_of_schedMove (hE : Edges s) (hL : Life s) (hR : Refs s) (hs : s.SchedMove s')
    {pc : ConsumePc} (h : s'.sched.consume? = some (p, pc)) :
    (∃ pc₀, s.sched.consume? = some (p, pc₀)) ∨
      (s.sched.beforeSelf? = some p ∧ p < s.nextTaskId ∧ s.phase p = .completed) ∨
      ∃ c, p < c ∧ c < s.nextTaskId := by
  cases hs with
  | @notified slot hpc =>
    cases h
    obtain ⟨hph, hlt⟩ := hL.phase_completing (t := p) (by rw [hpc]; rfl)
    exact .inr (.inl ⟨by rw [hpc]; rfl, hlt, hph⟩)
  | @deferred slot prod producers hpc =>
    cases h
    obtain ⟨-, hall⟩ := hR.deferring slot (p :: producers) (by rw [hpc]; rfl)
    exact .inr (.inr ⟨slot, hE.older p slot (hall p mem_cons_self)⟩)
  | @consumeSelf slot pc₀ hpc | @consumeProducer slot prod pc₀ producers hpc =>
    simp only at h
    split at h <;> cases h
    exact .inl ⟨pc₀, by rw [hpc]; rfl⟩
  | check => simp only at h; split at h <;> cases h
  | _ => cases h

/-- A step of the scheduler. -/
theorem allocOk_schedMove (hL : Life s) (hE : Edges s) (hR : Refs s) (h : AllocOk s)
    (hs : s.SchedMove s') : AllocOk s' := by
  have hiff := consumed_schedMove_iff hL hs
  have hRel := releases_schedMove hs
  have hFrame : s'.orch = s.orch ∧ s'.nextTaskId = s.nextTaskId := by cases hs <;> exact ⟨rfl, rfl⟩
  obtain ⟨hOrch, hNext⟩ := hFrame
  refine ⟨fun p pc hp => ?_, fun slot pc hpc => ?_, fun slot hpc => ?_,
    fun slot pc pc' hpc hc => ?_,
    fun slot pc hpc hc => ?_⟩
  · rw [hNext]
    rcases consume_of_schedMove hE hL hR hs hp with ⟨pc₀, hp⟩ | ⟨-, hlt, -⟩ | ⟨c, hpc, hc⟩
    · exact h.old p pc₀ hp
    · exact hlt
    · omega
  all_goals rw [hOrch] at hpc
  · rw [hNext]
    exact h.newest slot pc hpc
  · exact hRel slot (h.self slot hpc)
  · rcases consume_of_schedMove hE hL hR hs hc with ⟨pc₀, hc⟩ | ⟨hbefore, -, hph⟩ | ⟨c, hlt, hc⟩
    · exact h.nobody slot pc pc₀ hpc hc
    · -- its own release is behind, or it is not even submitted
      by_cases hact : pc = .active
      · subst hact
        exact hR.selfAhead slot (.inr hbefore) (h.self slot hpc)
      · have hun := (hL.pending_lt (t := slot)
          (by rw [hpc]; cases pc <;> first | rfl | contradiction)).2
        rw [hph] at hun
        cases hun
    · have := h.newest slot pc hpc
      omega
  · rcases (hiff slot).mp hc with hc | ⟨hc, -⟩
    · exact h.alive slot pc hpc hc
    · exact h.nobody slot pc _ hpc hc

theorem allocOk_move (hL : Life s) (h : AllocOk s) (hs : Move s s') :
    AllocOk s' := by
  have hiff := consumed_move_iff hL hs
  cases hs with
  | alloc hpc =>
    have hfresh := hL.not_consumed (hL.fresh s.nextTaskId le_rfl) (by simp)
    refine ⟨fun p pc hp => Nat.lt_succ_of_lt (h.old p pc hp), fun slot pc hpc => ?_,
      fun slot hpc => ?_, fun slot pc pc' hpc hc => ?_, fun slot pc hpc => ?_⟩ <;> cases hpc
    · rfl
    · exact absurd (h.old _ _ hc) (lt_irrefl _)
    · exact hfresh
  | reserve hpc =>
    exact ⟨fun p pc hp => Nat.lt_succ_of_lt (h.old p pc hp), nofun, nofun, nofun, nofun⟩
  | submit | shutdown | scopeEnd => exact ⟨h.old, nofun, nofun, nofun, nofun⟩
  | scopeBegin | workerDone => exact ⟨h.old, h.newest, h.self, h.nobody, h.alive⟩
  | popCompletion | popReady | noWorker =>
    exact ⟨nofun, h.newest, h.self, fun slot pc pc' _ => nofun, h.alive⟩
  | dispatch =>
    exact ⟨nofun, h.newest, h.self, fun slot pc pc' _ => nofun,
      fun slot pc hpc hc => h.alive slot pc hpc ((hiff slot).mp hc)⟩

/-- Allocated slots need no scheduler. -/
theorem AllocOk.reach (h : Reach step ok State.init s) :
    AllocOk s := by
  refine h.invariant allocOk_init fun s a s' hr ha _ hs => ?_
  have hL := Life.reach hr
  rcases step_cases hs with ⟨-, hm⟩ | ⟨-, hm⟩ | ⟨-, -, hm⟩
  · exact allocOk_orchMove hL ha hm
  · exact allocOk_schedMove hL (Edges.reach hr) (Refs.reach hr) ha hm
  · exact allocOk_move hL ha hm

theorem AllocOk.mem_unconsumed {slot : Nat} {pc : AllocPc} (h : AllocOk s)
    (ho : s.orch = .alloc slot pc) : slot ∈ unconsumed s :=
  Hier.mem_unconsumed.mpr ⟨by have := h.newest slot pc ho; omega, h.alive slot pc ho⟩

/-- **Unfinished work is counted.** A slot that is not CONSUMED, other than the one that `alloc`
is setting up, keeps the counter above zero. -/
theorem active_pos (h : Reach step ok State.init s) (hp : p ∈ unconsumed s)
    (hnot : ∀ pc, s.orch ≠ .alloc p pc) : 0 < s.activeTasks := by
  have hacc := Account.reach h
  have hpos := Finset.card_pos.mpr ⟨p, hp⟩
  unfold Account at hacc
  cases ho : s.orch with
  | alloc slot pc =>
    -- the new slot is in the set too
    have hslot := (AllocOk.reach h).mem_unconsumed ho
    have hne : p ≠ slot := fun he => hnot pc (he ▸ ho)
    have hsub : {p, slot} ⊆ unconsumed s := by
      intro q hq
      rcases Finset.mem_insert.mp hq with rfl | hq
      · exact hp
      · rw [Finset.mem_singleton.mp hq]
        exact hslot
    have hcard := Finset.card_le_card hsub
    rw [Finset.card_pair hne] at hcard
    rw [ho] at hacc
    simp only [OrchPc.allocating, OrchPc.won, OrchPc.reserving] at hacc
    omega
  | _ =>
    rw [ho] at hacc
    simp only [OrchPc.allocating] at hacc
    omega

/-- Reservations are counted. -/
theorem active_nonneg (h : Reach step ok State.init s) :
    s.orch.reserving ≤ s.activeTasks := by
  have hacc := Account.reach h
  unfold Account at hacc
  cases ho : s.orch with
  | alloc slot pc =>
    have hslot := (AllocOk.reach h).mem_unconsumed ho
    have hpos := Finset.card_pos.mpr ⟨slot, hslot⟩
    rw [ho] at hacc
    simp only [OrchPc.allocating, OrchPc.won, OrchPc.reserving] at hacc ⊢
    omega
  | _ =>
    rw [ho] at hacc
    simp only [OrchPc.allocating] at hacc
    omega

/-! ## A counter of zero -/

theorem won_of_inConsume {pc : ConsumePc} (h : InConsume s p pc) (hpc : pc.won = 1) :
    1 ≤ s.orch.won + s.sched.won := by
  rcases h with h | h
  · cases ho : s.orch with
    | release slot pc' tasks =>
      rw [ho] at h
      cases h
      show 1 ≤ pc.won + _
      omega
    | _ => rw [ho] at h; cases h
  · cases ho : s.sched with
    | consumeSelf slot pc' | consumeProducer slot prod pc' producers =>
      rw [ho] at h
      cases h
      show 1 ≤ _ + pc.won
      omega
    | _ => rw [ho] at h; cases h

/-- Between two calls of the orchestrator the counter is zero exactly if all slots are CONSUMED
and no thread is inside `on_consumed`. -/
theorem Account.zero_iff (h : Account s) (hOrch : s.orch = .idle) :
    s.activeTasks = 0 ↔ (∀ p < s.nextTaskId, s.state p = .consumed) ∧ s.sched.won = 0 := by
  have hcard : (unconsumed s).card = 0 ↔ ∀ p < s.nextTaskId, s.state p = .consumed := by
    rw [Finset.card_eq_zero, Finset.eq_empty_iff_forall_notMem]
    simp only [mem_unconsumed, not_and, ne_eq, not_not]
  unfold Account at h
  rw [hOrch] at h
  simp only [OrchPc.allocating, OrchPc.won, OrchPc.reserving] at h
  rw [← hcard]
  omega

/-- Nothing of a run is left behind. -/
structure NothingLeft (s : State) : Prop where
  consumed : ∀ p < s.nextTaskId, s.state p = .consumed
  slabs : ∀ p < s.nextTaskId, s.slabReleased p = true
  won : s.sched.won = 0
  ready : ∀ w, s.readyQueue w = []
  completion : s.completionQueue = []
  executing : ∀ p, s.executing p = 0
  map : s.tensormap = .empty
  frames : s.scopes = replicate s.scopes.length []

/-- A count of zero leaves no task. -/
theorem nothing_left (h : Reach step ok State.init s) (hOrch : s.orch = .idle)
    (hZero : s.activeTasks = 0) : NothingLeft s := by
  have hL := Life.reach h
  have hR := Refs.reach h
  obtain ⟨hcons, hwon⟩ := ((Account.reach h).zero_iff hOrch).mp hZero
  have hNobody (p : Nat) (pc : ConsumePc) (hpc : pc.won = 1) : ¬ InConsume s p pc := by
    intro hin
    have := won_of_inConsume hin hpc
    rw [hOrch] at this
    simp only [OrchPc.won] at this
    omega
  -- what a place of the system holds is not CONSUMED
  have hplace (p : Nat) (a : Phase) (hmem : (p, a) ∈ s.tokens)
      (ha : a ≠ .completed ∧ a ≠ .returned ∧ a ≠ .allocated) : False := by
    obtain ⟨hph, hlt, -⟩ := hL.token hmem
    exact hL.not_consumed hph ha (hcons p hlt)
  refine ⟨hcons, fun p hp => ?_, hwon, fun w => ?_, ?_, fun p => ?_, ?_, ?_⟩
  · rcases Freed.reach h p (hcons p hp) with hs | hs | hs
    · exact hs
    · exact absurd hs (hNobody p _ rfl)
    · exact absurd hs (hNobody p _ rfl)
  · rw [eq_nil_iff_forall_not_mem]
    intro p hp
    refine hplace p .queued ?_ (by simp)
    have : p ∈ s.readyQueue .nextLevel ∨ p ∈ s.readyQueue .sub := by
      cases w
      · exact .inl hp
      · exact .inr hp
    simp [State.tokens, queueTokens, this]
  · rw [eq_nil_iff_forall_not_mem]
    intro p hp
    exact hplace p .finished (by simp [State.tokens, hp]) (by simp)
  · by_contra hne
    obtain ⟨hph, -⟩ := hL.executing p (by omega)
    exact hL.not_consumed hph (by simp) (hcons p (hL.lt_of_phase (by rw [hph]; simp)))
  · -- an entry belongs to a slot that is not consumed, or whose keys are being erased
    have hnone (k : TensorKey) : s.tensormap.lookup k = none := by
      rw [Option.eq_none_iff_forall_ne_some]
      intro p hk
      rcases (Mapped.reach h k p hk).2 with hq | hq
      · exact hq (hcons p ((Edges.reach h).mapped k p hk))
      · exact hNobody p _ rfl hq
    have hmap : s.tensormap.map = fun _ => none := funext hnone
    exact congrArg TensorMap.mk hmap
  · -- a task of an open scope has not been released by it
    refine eq_replicate_iff.mpr ⟨rfl, fun frame hframe => ?_⟩
    rw [eq_nil_iff_forall_not_mem]
    intro p hp
    have hopen : p ∈ openTasks s := by
      rw [openTasks, hOrch]
      exact mem_flatten.mpr ⟨frame, hframe, hp⟩
    obtain ⟨hin, hnot⟩ := hR.openTask p hopen
    have hlt : p < s.nextTaskId := by
      by_contra hge
      rw [hR.unregistered p (.inr (by omega))] at hin
      cases hin
    exact hnot (((Passed.reach h).passed p (.inl (hcons p hlt))).2 hin)

end PtoRuntime.Hier
