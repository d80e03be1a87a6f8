import PtoRuntime.Hier.Readiness

/-!
# Hierarchical runtime — no stranded slot

A slot with live producers is left in PENDING by its submission; the completion that
brings `fanin_released` up to `fanin_count` is to take it to READY and push it. The
wake-up is lost if

* a completion increments `fanin_released` before the submission stores 0 into it; or
* the CAS to READY comes before the submission has stored PENDING.

Main results: `pushed_once`, `stranded_slot`.
-/

namespace PtoRuntime.Hier

open Lib Function List

/-- The slot `submit_impl` or `alloc` is at work on. -/
def OrchPc.slot? : OrchPc → Option Nat
  | .lookup slot .. | .insert slot .. | .attach slot .. | .submit slot .. | .alloc slot _ =>
    some slot
  | _ => none

/-- A slot whose `fanin_released` is not initialised yet. -/
def OrchPc.resetting? : OrchPc → Option Nat
  | .lookup slot .. | .insert slot .. | .attach slot .. | .submit slot _ .faninCount
  | .submit slot _ .faninReleased => some slot
  | _ => none

/-- The consumer whose `fanin_released` the scheduler's next step increments. -/
def SchedPc.bumping? : SchedPc → Option Nat
  | .notify _ (consumer :: _) => some consumer
  | _ => none

/-- The consumer the scheduler's next step tries to take to READY. -/
def SchedPc.swapping? : SchedPc → Option Nat
  | .casReady _ consumer _ => some consumer
  | _ => none

/-- `submit_impl` has returned for the slot. -/
def SubmitReturned (s : State) (t : Nat) : Prop :=
  t < s.nextTaskId ∧ s.phase t ≠ .allocated ∧ s.orch.slot? ≠ some t

/-- `on_task_complete` has returned for the slot, or `alloc` made it COMPLETED. -/
def CompletionReturned (s : State) (t : Nat) : Prop :=
  s.phase t = .returned ∨ s.phase t = .allocated

instance (s : State) (t : Nat) : Decidable (SubmitReturned s t) :=
  inferInstanceAs (Decidable (_ ∧ _ ∧ _))

instance (s : State) (t : Nat) : Decidable (CompletionReturned s t) :=
  inferInstanceAs (Decidable (_ ∨ _))

/-- No `fanin_released` is incremented before its submission stores 0, and no CAS to
READY meets a slot that is still FREE. -/
def WakeGuard (s : State) : Act → Prop
  | .sched => (∀ c ∈ s.sched.bumping?, s.orch.resetting? ≠ some c) ∧
      ∀ c ∈ s.sched.swapping?, s.state c ≠ .free
  | _ => True

instance : DecidableRel WakeGuard := fun s a =>
  match a with
  | .sched => inferInstanceAs (Decidable ((∀ c ∈ s.sched.bumping?, _) ∧ ∀ c ∈ _, _))
  | .orch | .submit .. | .alloc _ | .scopeBegin | .scopeEnd | .reserve _ | .shutdown
  | .popCompletion | .popReady _ | .dispatch | .noWorker | .workerDone _ =>
    inferInstanceAs (Decidable True)

/-! ## Pushes -/

/-- The phases behind the push. -/
def Phase.pushed : Phase → Bool
  | .queued | .dispatching | .executing | .finished | .completing | .completed | .returned => true
  | .unsubmitted | .waiting | .ready | .allocated => false

/-- Every slot behind its push was pushed once, the others not at all; a slot left in
PENDING has live producers. -/
structure Pushes (s : State) : Prop where
  count : ∀ t, s.pushes t = if (s.phase t).pushed then 1 else 0
  waiting : ∀ t, s.phase t = .waiting → s.live t ≠ []

theorem pushes_init : Pushes State.init := ⟨fun _ => rfl, fun _ h => by cases h⟩

variable {s s' : State} {t c : Nat}

/-- Steps that move slot `t` to the phase `b` on the same side of the push. -/
theorem Pushes.move (h : Pushes s) {a b : Phase} {orch sched state readyQueue
    completionQueue executing subCompleteCount releases} (ha : s.phase t = a)
    (hb : b.pushed = a.pushed) (hWait : b = .waiting → s.live t ≠ []) :
    Pushes { s with
      phase := update s.phase t b, orch := orch, sched := sched, state := state
      readyQueue := readyQueue, completionQueue := completionQueue, executing := executing
      subCompleteCount := subCompleteCount, releases := releases } := by
  refine ⟨fun u => ?_, fun u (hu : update s.phase t b u = .waiting) => ?_⟩
  · have hu : (update s.phase t b u).pushed = (s.phase u).pushed := by
      rw [update_apply]
      split
      · subst u
        rw [hb, ha]
      · rfl
    show s.pushes u = if (update s.phase t b u).pushed then 1 else 0
    rw [h.count u, hu]
  · rw [update_apply] at hu
    split at hu
    · subst u
      exact hWait hu
    · exact h.waiting u hu

/-- A ready task is pushed. -/
theorem Pushes.push (h : Pushes s) (ht : s.phase t = .ready) :
    Pushes (s.pushReady t) := by
  refine ⟨fun u => ?_, fun u hu => ?_⟩
  · have := h.count u
    simp only [State.pushReady, update_apply]
    split
    · rename_i hut
      subst hut
      rw [ht] at this
      simp [this, Phase.pushed]
    · exact this
  · simp only [State.pushReady, update_apply] at hu
    split_ifs at hu
    exact h.waiting u hu

/-- A step of the orchestrator. -/
theorem pushes_orchMove (hL : Life s) (hE : Edges s) (h : Pushes s) (hs : s.OrchMove s') :
    Pushes s' := by
  cases hs with
  | @attach slot prod producers n hpc =>
    have hun := (hL.pending_lt (t := slot) (by rw [hpc]; rfl)).2
    unfold State.attachProducer
    split
    · exact { h with }
    · refine { h with waiting := fun u hu => ?_ }
      have hne : u ≠ slot := by
        rintro rfl
        cases hun.symm.trans hu
      dsimp only
      split
      · exact h.waiting u hu
      · rw [update_of_ne hne]
        exact h.waiting u hu
  | @submit slot n pc hpc =>
    cases pc with
    | state =>
      have hun := (hL.pending_lt (t := slot) (by rw [hpc]; rfl)).2
      refine h.move hun ?_ fun hb => ?_
      · split <;> rfl
      · split_ifs at hb with hn
        rw [hE.liveFanins slot n (by rw [hpc]; rfl)] at hn
        exact fun hnil => hn (by rw [hnil]; rfl)
    | push =>
      have hph := (hL.token (t := slot) (a := .ready)
        (by simp [State.tokens, hpc, OrchPc.tokens])).1
      exact { h.push hph with }
    | _ => exact { h with }
  | @alloc slot pc hpc =>
    cases pc with
    | state => exact h.move (hL.pending_lt (t := slot) (by rw [hpc]; rfl)).2 rfl (by simp)
    | _ => exact { h with }
  | _ => exact { h with }

/-- A step of the scheduler. -/
theorem pushes_schedMove (hL : Life s) (h : Pushes s) (hs : s.SchedMove s') :
    Pushes s' := by
  cases hs with
  | @storeCompleted slot hpc =>
    exact h.move (hL.schedHead (t := slot) (a := .completing) (by rw [hpc]; rfl)).1 rfl (by simp)
  | @casReady slot consumer consumers hpc hst =>
    have hph : s.phase consumer = .waiting := by
      have := hL.allows consumer
      rw [hst] at this
      cases hp : s.phase consumer <;> simp_all [Phase.Allows]
    exact h.move hph rfl (by simp)
  | @push slot consumer consumers hpc =>
    exact { h.push (hL.schedHead (t := consumer) (a := .ready) (by rw [hpc]; rfl)).1 with }
  | @returned slot hpc =>
    exact h.move (hL.schedHead (t := slot) (a := .completed) (by rw [hpc]; rfl)).1 rfl (by simp)
  | _ => exact { h with }

theorem pushes_move (hL : Life s) (h : Pushes s) (hs : Move s s') : Pushes s' := by
  cases hs with
  | @popCompletion slot rest hpc hq =>
    exact h.move (hL.token (t := slot) (a := .finished) (by simp [State.tokens, hq])).1 rfl
      (by simp)
  | @popReady queue slot rest hpc hq =>
    have hph := (hL.token (t := slot) (a := .queued) (by
      have := (queueTokens_pop hq).mem_iff.mpr mem_cons_self
      simp [State.tokens, this])).1
    exact h.move hph rfl (by simp)
  | @dispatch queue slot hpc | @noWorker queue slot hpc =>
    exact h.move (hL.schedHead (t := slot) (a := .dispatching) (by rw [hpc]; rfl)).1 rfl (by simp)
  | @workerDone slot hx =>
    simp only [State.workerDone]
    split
    · exact { h with }
    · exact h.move (hL.executing slot hx).1 rfl (by simp)
  | _ => exact { h with }

/-- Pushes are counted in every run. -/
theorem Pushes.reach {ok : State → Act → Prop} (h : Reach step ok State.init s) :
    Pushes s := by
  refine h.invariant pushes_init fun s a s' hr hp _ hs => ?_
  rcases step_cases hs with ⟨-, hm⟩ | ⟨-, hm⟩ | ⟨-, -, hm⟩
  · exact pushes_orchMove (Life.reach hr) (Edges.reach hr) hp hm
  · exact pushes_schedMove (Life.reach hr) hp hm
  · exact pushes_move (Life.reach hr) hp hm

/-! ## Wake-ups -/

/-- FREE or PENDING: nobody has found the slot ready. -/
def Asleep (s : State) (c : Nat) : Prop := s.state c = .free ∨ s.state c = .pending

/-- The scheduler is about to take the slot to READY. -/
def Waking (s : State) (c : Nat) : Prop :=
  (∃ t r cs, s.sched = .check t c r cs ∧ s.faninCount c ≤ r) ∨ ∃ t cs, s.sched = .casReady t c cs

/-- Under the guard, `fanin_released` counts every increment, and a sleeping slot that
has all the increments it waits for is being woken. -/
structure Wake (s : State) : Prop where
  unreset : ∀ c, s.orch.resetting? = some c → s.bumped c = []
  released : ∀ c, s.faninReleased c = (s.bumped c).length
  waking : ∀ c, Asleep s c → s.faninCount c ≤ s.faninReleased c → 0 < s.faninReleased c →
    Waking s c

theorem wake_init : Wake State.init where
  unreset _ h := by cases h
  released _ := rfl
  waking _ _ _ h := absurd h (lt_irrefl 0)

/-- The stores of `fanin_count` and `fanin_released` come before the first increment. -/
theorem Wake.store (h : Wake s) {o : OrchPc} {faninCount faninReleased : Nat → Nat}
    (hReset : ∀ c, o.resetting? = some c → s.bumped c = [])
    (hReleased : ∀ c, faninReleased c = (s.bumped c).length)
    (hCount : ∀ c, s.bumped c ≠ [] → faninCount c = s.faninCount c) :
    Wake { s with orch := o, faninCount := faninCount, faninReleased := faninReleased } := by
  refine ⟨hReset, hReleased, fun c hs hle hpos => ?_⟩
  have hfr : faninReleased c = s.faninReleased c := (hReleased c).trans (h.released c).symm
  have hne : s.bumped c ≠ [] := ne_nil_of_length_pos (hReleased c ▸ hpos)
  have hfc := hCount c hne
  dsimp only at hle hpos
  rw [hfc, hfr] at hle
  rw [Waking]
  dsimp only
  rw [hfc]
  exact h.waking c hs hle (hfr ▸ hpos)

theorem resetting_orchMove (hs : s.OrchMove s') (h : s'.orch.resetting? = some c) :
    s.orch.resetting? = some c := by
  cases hs with
  | attach hpc =>
    rw [hpc]
    simp only [State.attachProducer] at h
    split at h <;> exact h
  | @submit slot n pc hpc =>
    cases pc with
    | faninCount => rw [hpc]; exact h
    | state => simp only [State.submitStep] at h; split at h <;> cases h
    | _ => cases h
  | @alloc slot pc hpc => cases pc <;> cases h
  | scopeEnded | releaseTask => cases h
  | release =>
    simp only at h
    split at h <;> cases h
  | _ hpc => rw [hpc]; exact h

theorem asleep_consumeEffect (slot : Nat) (holder : Holder) (pc : ConsumePc)
    (h : Asleep (s.consumeEffect slot holder pc) c) : Asleep s c := by
  rcases consumeEffect_state s slot holder pc c with he | ⟨-, -, -, he⟩
  · rw [Asleep, he] at h; exact h
  · rw [Asleep, he] at h; simp at h

/-- The orchestrator puts nobody to sleep. -/
theorem asleep_orchMove (hL : Life s) (hs : s.OrchMove s') (h : Asleep s' c) : Asleep s c := by
  cases hs with
  | attach =>
    simp only [State.attachProducer] at h
    split at h <;> exact h
  | @submit slot n pc hpc =>
    cases pc with
    | state =>
      by_cases hc : c = slot
      · subst hc
        have := hL.allows c
        rw [(hL.pending_lt (t := c) (by rw [hpc]; rfl)).2] at this
        exact .inl this
      · simpa [Asleep, State.submitStep, hc] using h
    | _ => exact h
  | @alloc slot pc hpc =>
    cases pc with
    | state =>
      by_cases hc : c = slot
      · subst hc
        simp [Asleep, State.allocStep] at h
      · simpa [Asleep, State.allocStep, hc] using h
    | _ => exact h
  | @release slot pc tasks hpc => exact asleep_consumeEffect slot .scope pc h
  | _ => exact h

/-- A slot without edges has no increments. -/
theorem Notify.bumped_eq_nil (h : Notify s) (hc : s.faninProducers c = []) : s.bumped c = [] := by
  rw [eq_nil_iff_forall_not_mem]
  intro t ht
  have := h.edge c t ht
  rw [hc] at this
  cases this

/-- A step of the orchestrator. -/
theorem wake_orchMove (hL : Life s) (hE : Edges s) (hN : Notify s) (h : Wake s)
    (hs : s.OrchMove s') : Wake s' := by
  have hReset (c : Nat) (hc : s'.orch.resetting? = some c) : s.bumped c = [] :=
    h.unreset c (resetting_orchMove hs hc)
  have hWaking (c : Nat) (hc : Asleep s' c) := h.waking c (asleep_orchMove hL hs hc)
  -- a store of 0 to the counter of a slot that nobody has incremented
  have hZero {slot : Nat} (hnil : s.bumped slot = []) (c : Nat) :
      update s.faninReleased slot 0 c = (s.bumped c).length := by
    rw [update_apply]
    split_ifs with hc
    · rw [hc, hnil]
      rfl
    · exact h.released c
  have hOther {slot n : Nat} (hnil : s.bumped slot = []) (c : Nat) (hc : s.bumped c ≠ []) :
      update s.faninCount slot n c = s.faninCount c :=
    update_of_ne (by rintro rfl; exact hc hnil) ..
  cases hs with
  | @attach slot prod =>
    by_cases hc : s.state prod = .consumed <;>
      simp only [State.attachProducer, hc, if_true, if_false] at hReset ⊢ <;>
      exact { h with unreset := hReset }
  | @submit slot n pc hpc =>
    cases pc with
    | faninCount =>
      exact h.store hReset h.released (hOther (h.unreset slot (by rw [hpc]; rfl)))
    | faninReleased =>
      exact h.store hReset (hZero (h.unreset slot (by rw [hpc]; rfl))) fun _ _ => rfl
    | _ => exact { h with unreset := hReset, waking := hWaking }
  | @alloc slot pc hpc =>
    cases pc with
    | fanin =>
      have hnil := hN.bumped_eq_nil (hE.unattached slot (by rw [hpc]; rfl))
      exact h.store hReset (hZero hnil) (hOther hnil)
    | _ => exact { h with unreset := hReset, waking := hWaking }
  | _ => exact { h with unreset := hReset, waking := hWaking }

/-- The scheduler visits nobody, so nobody has what it waits for. -/
theorem Wake.calm (h : Wake s) (hv : ∀ c, ¬ Waking s c) {P : Prop} (hs : Asleep s c)
    (hle : s.faninCount c ≤ s.faninReleased c) (hpos : 0 < s.faninReleased c) : P :=
  absurd (h.waking c hs hle hpos) (hv c)

theorem not_waking {pc : SchedPc} (hpc : s.sched = pc)
    (h : pc.checking? = none ∧ pc.swapping? = none) (c : Nat) : ¬ Waking s c := by
  rintro (⟨t, r, cs, hpc', -⟩ | ⟨t, cs, hpc'⟩) <;> rw [← hpc, hpc'] at h
  · cases h.1
  · cases h.2

/-- The notification of one consumer. -/
theorem wake_notify (h : Wake s) {slot consumer : Nat} {consumers : List Nat}
    (hpc : s.sched = .notify slot (consumer :: consumers))
    (hok : s.orch.resetting? ≠ some consumer) :
    Wake { s with
      faninReleased := update s.faninReleased consumer (s.faninReleased consumer + 1)
      bumped := update s.bumped consumer (s.bumped consumer ++ [slot])
      sched := .check slot consumer (s.faninReleased consumer + 1) consumers } := by
  refine ⟨fun c hc => ?_, fun c => ?_, fun c hs hle hpos => ?_⟩
  · have hne : c ≠ consumer := by rintro rfl; exact hok hc
    simp only [update_of_ne hne]
    exact h.unreset c hc
  · have := h.released c
    simp only [update_apply]
    split_ifs with hc
    · subst hc
      simp [this]
    · exact this
  · by_cases hc : c = consumer
    · subst hc
      simp only [update_self] at hle
      exact .inl ⟨slot, _, consumers, rfl, hle⟩
    · simp only [update_of_ne hc] at hle hpos
      exact h.calm (not_waking hpc ⟨rfl, rfl⟩) hs hle hpos

/-- A step of the scheduler. -/
theorem wake_schedMove (h : Wake s) (hok : WakeGuard s .sched) (hs : s.SchedMove s') : Wake s' := by
  obtain ⟨hBump, hSwap⟩ := hok
  cases hs with
  | notify hpc => exact wake_notify h hpc (hBump _ (by rw [hpc]; rfl))
  | @check slot consumer released consumers hpc =>
    refine { h with waking := fun c hs hle hpos => ?_ }
    rcases h.waking c hs hle hpos with ⟨t, r, cs, ht, hr⟩ | ⟨t, cs, ht⟩ <;> cases hpc.symm.trans ht
    -- the comparison succeeds
    exact .inr ⟨slot, consumers, if_pos hr⟩
  | @casReady slot consumer consumers hpc hst =>
    refine { h with waking := fun c hs hle hpos => ?_ }
    by_cases hc : c = consumer
    · subst hc
      simp [Asleep] at hs
    · have hs' : Asleep s c := by simpa [Asleep, hc] using hs
      rcases h.waking c hs' hle hpos with ⟨t, r, cs, ht, -⟩ | ⟨t, cs, ht⟩ <;>
        cases hpc.symm.trans ht
      exact absurd rfl hc
  | @casFailed slot consumer consumers hpc hst =>
    refine { h with waking := fun c hs hle hpos => ?_ }
    rcases h.waking c hs hle hpos with ⟨t, r, cs, ht, -⟩ | ⟨t, cs, ht⟩ <;> cases hpc.symm.trans ht
    -- the CAS failed, so the slot is past PENDING
    have hfree := hSwap consumer (by rw [hpc]; rfl)
    exact absurd hs (by rintro (hs | hs) <;> contradiction)
  | @storeCompleted slot hpc =>
    refine { h with waking := fun c hs => h.calm (not_waking hpc ⟨rfl, rfl⟩) ?_ }
    by_cases hc : c = slot
    · subst hc; simp [Asleep] at hs
    · simpa [Asleep, hc] using hs
  | @consumeSelf slot pc hpc =>
    exact { h with
      waking := fun c hs =>
        h.calm (not_waking hpc ⟨rfl, rfl⟩) (asleep_consumeEffect slot .self pc hs) }
  | @consumeProducer slot prod pc producers hpc =>
    exact { h with
      waking := fun c hs =>
        h.calm (not_waking hpc ⟨rfl, rfl⟩) (asleep_consumeEffect prod (.consumer slot) pc hs) }
  | _ hpc =>
    exact { h with waking := fun _ => h.calm (not_waking hpc ⟨rfl, rfl⟩) }

theorem wake_move (hE : Edges s) (hN : Notify s) (h : Wake s) (hs : Move s s') :
    Wake s' := by
  cases hs with
  | scopeBegin | workerDone => exact { h with }
  | reserve hpc =>
    refine { h with unreset := fun c hc => ?_ }
    cases hc
    refine hN.bumped_eq_nil (eq_nil_iff_forall_not_mem.mpr fun p hp => ?_)
    have := hE.older p _ hp
    omega
  | popCompletion hpc | popReady hpc | noWorker hpc =>
    exact { h with waking := fun _ => h.calm (not_waking hpc ⟨rfl, rfl⟩) }
  | @dispatch queue slot hpc =>
    refine { h with waking := fun c hs => h.calm (not_waking hpc ⟨rfl, rfl⟩) ?_ }
    by_cases hc : c = slot
    · subst hc; simp [Asleep] at hs
    · simpa [Asleep, hc] using hs
  | _ hpc => exact { h with unreset := nofun }

/-- Nobody is missed in guarded runs. -/
theorem Wake.reach (h : Reach step WakeGuard State.init s) : Wake s := by
  refine h.invariant wake_init fun s a s' hr hw hok hs => ?_
  rcases step_cases hs with ⟨-, hm⟩ | ⟨rfl, hm⟩ | ⟨-, -, hm⟩
  · exact wake_orchMove (Life.reach hr) (Edges.reach hr) (Notify.reach hr) hw hm
  · exact wake_schedMove hw hok hm
  · exact wake_move (Edges.reach hr) (Notify.reach hr) hw hm

/-! ## Slots with nothing left to wait for -/

/-- A completion in progress has not returned. -/
theorem Life.not_returned (h : Life s) (ht : s.sched.completing? = some t) :
    ¬ CompletionReturned s t := by
  have hph := (h.phase_completing ht).1
  rintro (hr | hr) <;> rw [hph] at hr <;> cases hr

theorem completing_of_visiting {pc : SchedPc} (h : pc.visiting? = some (t, c)) :
    pc.completing? = some t := by
  cases pc <;> simp_all [SchedPc.visiting?, SchedPc.completing?]

/-- If all producers' completions have returned, every live one has incremented. -/
theorem live_subset_bumped (hL : Life s) (hE : Edges s) (hN : Notify s)
    (hProd : ∀ p ∈ s.faninProducers c, CompletionReturned s p) : s.live c ⊆ s.bumped c := by
  intro p hp
  have hret := hProd p ((hE.live c).subset hp)
  have hdone : Done s p := (hL.done_iff p).mpr (.inr hret)
  rcases hN.ahead c p hp with hb | hu | ⟨cs, ht, -⟩
  · exact hb
  · rcases hu with hu | hu
    · exact absurd hdone hu
    · exact absurd hret (hL.not_returned (by rw [hu]; rfl))
  · exact absurd hret (hL.not_returned (completing_of_todo ht).1)

/-- Nobody visits a slot whose producers' completions have all returned. -/
theorem not_visiting (hL : Life s) (hN : Notify s)
    (hProd : ∀ p ∈ s.faninProducers c, CompletionReturned s p) (t : Nat) :
    s.sched.visiting? ≠ some (t, c) := fun ht =>
  hL.not_returned (completing_of_visiting ht) (hProd t (hN.edge c t (hN.visiting t c ht)))

theorem slot_of_counting {pc : OrchPc} (h : pc.counting? = some c) :
    pc.slot? = some c := by
  cases pc with
  | submit slot n pc => cases pc <;> first | exact h | cases h
  | _ => first | exact h | cases h

theorem slot_of_pending {pc : OrchPc} (h : pc.pending? = some c) :
    pc.slot? = some c := by
  cases pc with
  | submit slot n pc => cases pc <;> first | exact h | cases h
  | alloc slot pc => cases pc <;> first | exact h | cases h
  | _ => exact h

/-- With all producers done, nobody waits. -/
theorem not_waiting (hL : Life s) (hE : Edges s) (hN : Notify s) (hP : Pushes s) (hW : Wake s)
    (hSub : s.orch.slot? ≠ some c) (hProd : ∀ p ∈ s.faninProducers c, CompletionReturned s p) :
    s.phase c ≠ .waiting := by
  intro hph
  have hlive := hP.waiting c hph
  have hlen : (s.live c).length ≤ (s.bumped c).length :=
    (List.Nodup.subperm ((hE.producersNodup c).sublist (hE.live c))
      (live_subset_bumped hL hE hN hProd)).length_le
  have hpos := length_pos_of_ne_nil hlive
  have hcount := hE.counted c fun hc => hSub (slot_of_counting hc)
  have hst : s.state c = .pending := by
    have := hL.allows c
    rw [hph] at this
    exact this
  rcases hW.waking c (.inr hst) (by rw [hcount, hW.released]; exact hlen)
      (by rw [hW.released]; omega) with ⟨t, r, cs, ht, -⟩ | ⟨t, cs, ht⟩
  · exact not_visiting hL hN hProd t (by rw [ht]; rfl)
  · exact not_visiting hL hN hProd t (by rw [ht]; rfl)

/-- READY and not pushed: whoever found the slot ready is on the way to push it. -/
theorem Life.pusher (h : Life s) (hph : s.phase c = .ready) :
    s.orch.slot? = some c ∨ ∃ t, s.sched.visiting? = some (t, c) := by
  have hmem := h.located.mem_of_held (i := c) (by rw [hph]; rfl)
  rw [hph] at hmem
  simp only [State.tokens, queueTokens, mem_append, mem_map] at hmem
  rcases hmem with ((hmem | hmem) | ⟨_, -, hmem⟩) | ⟨_, -, hmem⟩
  · left
    cases ho : s.orch with
    | submit slot n pc =>
      rw [ho] at hmem
      cases pc <;> simp_all [OrchPc.tokens, OrchPc.slot?]
    | _ => rw [ho] at hmem; cases hmem
  · right
    cases hc : s.sched with
    | push slot consumer cs =>
      rw [hc] at hmem
      simp only [SchedPc.tokens, mem_cons, Prod.mk.injEq] at hmem
      simp_all [SchedPc.visiting?]
    | _ => rw [hc] at hmem; simp [SchedPc.tokens] at hmem
  · cases hmem
  · cases hmem

/--
**No stranded slot, under the guard.** In every run in which no `fanin_released` is
incremented before its submission stores 0 and no CAS to READY meets a FREE slot: once
`submit_impl` has returned for a slot and `on_task_complete` has returned for each of
its producers, the slot has been pushed exactly once and is not PENDING.
-/
theorem pushed_once {s : State} (hReach : Reach step WakeGuard State.init s) {c : Nat}
    (hSub : SubmitReturned s c) (hProd : ∀ p ∈ s.faninProducers c, CompletionReturned s p) :
    s.pushes c = 1 ∧ s.state c ≠ .pending := by
  have hL := Life.reach hReach
  have hE := Edges.reach hReach
  have hN := Notify.reach hReach
  have hP := Pushes.reach hReach
  obtain ⟨hlt, hAlloc, hSlot⟩ := hSub
  have hWait := not_waiting hL hE hN hP (Wake.reach hReach) hSlot hProd
  have hUn : s.phase c ≠ .unsubmitted := fun hph =>
    hSlot (slot_of_pending ((hL.pending c hlt).mp hph))
  have hReady : s.phase c ≠ .ready := fun hph =>
    (hL.pusher hph).elim hSlot fun ⟨t, ht⟩ => not_visiting hL hN hProd t ht
  have hPushed : (s.phase c).pushed = true := by
    cases hph : s.phase c <;> simp_all [Phase.pushed]
  refine ⟨by rw [hP.count c, if_pos hPushed], fun hst => ?_⟩
  have := hL.allows c
  rw [hst] at this
  cases hph : s.phase c <;> simp_all [Phase.Allows, Phase.pushed]

/-- The completion of slot 0 returns, having pushed slot 1. -/
theorem pushed_once_wakeConsumer :
    ∃ s, Reach step WakeGuard State.init s ∧ 0 ∈ s.faninProducers 1 ∧
      s.pushes 1 = 1 ∧ s.state 1 ≠ .pending := by
  refine Reach.exists_of_run_imp (P := fun s => SubmitReturned s 1 ∧
      (∀ p ∈ s.faninProducers 1, CompletionReturned s p) ∧ 0 ∈ s.faninProducers 1)
    (wakeConsumer ++ replicate 7 .sched) (by decide) fun s hReach ⟨hSub, hProd, hmem⟩ => ?_
  exact ⟨hmem, pushed_once hReach hSub hProd⟩

/-- In no run is a slot pushed twice, or executed without having been pushed. -/
theorem never_pushed_twice {ok : State → Act → Prop} (h : Reach step ok State.init s) (t : Nat) :
    s.pushes t ≤ 1 ∧ (0 < s.executing t → s.pushes t = 1) := by
  rw [(Pushes.reach h).count]
  refine ⟨by split <;> decide, fun he => ?_⟩
  rw [((Life.reach h).executing t he).1]
  rfl

/-- A task that runs after one push. -/
theorem never_pushed_twice_running :
    ∃ s, Reach step free State.init s ∧ s.executing 0 = 1 ∧ s.pushes 0 = 1 :=
  Reach.exists_of_run_imp (P := fun s => s.executing 0 = 1) (submitWriter tensorA ++ startTask)
    (by decide) fun _ h he => ⟨he, (never_pushed_twice h 0).2 (by omega)⟩

/-- Slot 1 attaches to the running slot 0; slot 0 completes and returns before the
submission of slot 1 goes on. -/
def completeInsideSubmit : List Act :=
  submitWriter tensorA ++ startTask ++
    [Act.workerDone 0, .submit .sub [[(tensorA, .input)]] [], .reserve 0] ++
    replicate 4 Act.orch ++ [Act.popCompletion] ++ replicate 10 Act.sched ++
    replicate 6 Act.orch

/-- The submission and the only producer have returned, and slot 1 is PENDING and in no
queue. -/
theorem stranded_slot :
    ∃ s, Reach step free State.init s ∧ SubmitReturned s 1 ∧
      (∀ p ∈ s.faninProducers 1, CompletionReturned s p) ∧
      s.state 1 = .pending ∧ s.pushes 1 = 0 :=
  Reach.exists_of_run completeInsideSubmit (by decide)

end PtoRuntime.Hier
