import PtoRuntime.Hier.Release

/-!
# Hierarchical runtime — no slot is leaked

A slot becomes CONSUMED when one of its releases finds the counter at `fanout_total + 1` and
the state COMPLETED. Counter, total and state are read in three steps, and a consumer may be
attached between any two of them, so a release can miss; the claim is that the last one does
not.

Three invariants carry it. What was owed and is not ahead has been released; every slot is
registered in a scope, if every call is made inside one; and a slot whose releases have reached
its total is CONSUMED, or a thread is on its way to find that out.

Main results: `Performed.reach`, `Settles.reach`, `no_leaked_slot`.
-/

namespace PtoRuntime.Hier

open Lib Function List

/-! ## Steps -/

variable {s s' : State} {t p : Nat} {pc : SchedPc}

theorem done_of_consumeEffect (slot : Nat) (holder : Holder) (pc : ConsumePc)
    (h : Done (s.consumeEffect slot holder pc) t) : Done s t := by
  rcases consumeEffect_state s slot holder pc t with he | ⟨-, -, hc, -⟩
  · rwa [Done, he] at h
  · exact .inl hc

/-- The orchestrator completes only the slots it allocates. -/
theorem done_of_orchMove (hs : s.OrchMove s') (h : Done s' t) :
    Done s t ∨ s.orch = .alloc t .state ∧ s' = s.allocStep t .state := by
  cases hs with
  | attach =>
    unfold State.attachProducer at h
    split at h <;> exact .inl h
  | @submit slot n pc hpc =>
    cases pc with
    | state =>
      by_cases ht : t = slot
      · subst ht
        unfold Done State.submitStep at h
        simp only [update_self] at h
        split at h <;> rcases h with h | h <;> cases h
      · exact .inl (h.congr (update_of_ne ht ..).symm)
    | _ => exact .inl h
  | @alloc slot pc hpc =>
    cases pc with
    | state =>
      by_cases ht : t = slot
      · subst ht
        exact .inr ⟨hpc, rfl⟩
      · exact .inl (h.congr (update_of_ne ht ..).symm)
    | _ => exact .inl h
  | @release slot pc tasks => exact .inl (done_of_consumeEffect slot .scope pc h)
  | _ => exact .inl h

/-- The scheduler completes one task. -/
theorem done_of_schedMove (hs : s.SchedMove s') (h : Done s' t) :
    Done s t ∨ s'.sched = .snapshot t := by
  cases hs with
  | @storeCompleted slot hpc =>
    by_cases ht : t = slot
    · subst ht
      exact .inr rfl
    · exact .inl (h.congr (update_of_ne ht ..).symm)
  | @casReady slot consumer consumers hpc hst =>
    by_cases ht : t = consumer
    · subst ht
      rcases h with h | h <;> simp at h
    · exact .inl (h.congr (update_of_ne ht ..).symm)
  | @consumeSelf slot pc => exact .inl (done_of_consumeEffect slot .self pc h)
  | @consumeProducer slot prod pc producers =>
    exact .inl (done_of_consumeEffect prod (.consumer slot) pc h)
  | _ => exact .inl h

/-- Other steps complete nothing. -/
theorem done_of_move (hs : Move s s') (h : Done s' t) : Done s t := by
  cases hs with
  | @dispatch queue slot hpc =>
    by_cases ht : t = slot
    · subst ht
      rcases h with h | h <;> simp at h
    · exact h.congr (update_of_ne ht ..).symm
  | _ => exact h

/-! ## Releases that are not ahead -/

/-- Whoever owes a slot a release and has passed the point has performed it. -/
structure Performed (s : State) : Prop where
  self : ∀ t, ¬ SelfAhead s t → .self ∈ s.releases t
  scope : ∀ p, s.inScope p = true → p ∉ openTasks s → .scope ∈ s.releases p
  consumer : ∀ c p, p ∈ s.faninProducers c → ¬ ConsumerAhead s c p → .consumer c ∈ s.releases p

theorem performed_init : Performed State.init where
  self _ h := absurd (.inl (by simp [Done, State.init])) h
  scope _ h := by cases h
  consumer _ _ h := by cases h

/-- Passing a point of release performs it. -/
theorem Performed.congr (h : Performed s) (hRel : ∀ p, s.releases p ⊆ s'.releases p)
    (hSelf : ∀ t, ¬ SelfAhead s' t → ¬ SelfAhead s t ∨ .self ∈ s'.releases t)
    (hScope : ∀ p, s'.inScope p = true → p ∉ openTasks s' →
      (s.inScope p = true ∧ p ∉ openTasks s) ∨ .scope ∈ s'.releases p)
    (hCons : ∀ c p, p ∈ s'.faninProducers c → ¬ ConsumerAhead s' c p →
      (p ∈ s.faninProducers c ∧ ¬ ConsumerAhead s c p) ∨ .consumer c ∈ s'.releases p) :
    Performed s' where
  self t ht := (hSelf t ht).elim (fun hs => hRel t (h.self t hs)) id
  scope p hin ho := (hScope p hin ho).elim (fun hs => hRel p (h.scope p hs.1 hs.2)) id
  consumer c p hp ha := (hCons c p hp ha).elim (fun hs => hRel p (h.consumer c p hs.1 hs.2)) id

theorem not_selfAhead_iff :
    ¬ SelfAhead s t ↔ Done s t ∧ s.sched.beforeSelf? ≠ some t := by
  rw [SelfAhead, not_or, not_not]

theorem not_consumerAhead_iff {c : Nat} :
    ¬ ConsumerAhead s c p ↔ Done s c ∧ s.sched.beforeDeferred? ≠ some c ∧
      ∀ ps, s.sched.deferring? = some (c, ps) → p ∉ ps := by
  rw [ConsumerAhead, not_or, not_or, not_not, not_exists]
  simp only [not_and]

/-- Scopes and their tasks along the orchestrator's steps. -/
theorem scope_orchMove (hs : s.OrchMove s') (p : Nat) (hin : s'.inScope p = true)
    (ho : p ∉ openTasks s') :
    (s.inScope p = true ∧ p ∉ openTasks s) ∨ .scope ∈ s'.releases p := by
  -- the registration puts the slot into the innermost scope, which is open
  have hRegister (slot : Nat) (hOpen : openTasks s = s.scopes.flatten)
      (hin : (s.registerTask slot).inScope p = true)
      (ho : p ∉ (s.registerTask slot).scopes.flatten) :
      s.inScope p = true ∧ p ∉ openTasks s := by
    rw [hOpen]
    unfold State.registerTask at hin ho
    cases hsc : s.scopes with
    | nil => simpa [hsc] using hin
    | cons frame outer =>
      simp only [hsc, flatten_cons, mem_append, mem_singleton, not_or] at ho
      simp only [hsc, reduceCtorEq, if_false, update_of_ne ho.1.2] at hin
      refine ⟨hin, ?_⟩
      simp [ho.1.1, ho.2]
  cases hs with
  | attach hpc =>
    left
    unfold State.attachProducer at hin ho
    split at hin
    · rename_i hc
      rw [if_pos hc] at ho
      exact ⟨hin, by simpa [openTasks, hpc] using ho⟩
    · rename_i hc
      rw [if_neg hc] at ho
      exact ⟨hin, by simpa [openTasks, hpc] using ho⟩
  | @submit slot n pc hpc =>
    left
    have hOpen : openTasks s = s.scopes.flatten := by simp [openTasks, hpc]
    cases pc with
    | fanoutReleased => exact hRegister slot hOpen hin ho
    | state =>
      refine ⟨hin, ?_⟩
      rw [hOpen]
      by_cases hn : n = 0 <;> simpa [openTasks, State.submitStep, hn] using ho
    | _ => exact ⟨hin, by rw [hOpen]; exact ho⟩
  | @alloc slot pc hpc =>
    left
    have hOpen : openTasks s = s.scopes.flatten := by simp [openTasks, hpc]
    cases pc with
    | fanoutReleased => exact hRegister slot hOpen hin ho
    | _ => exact ⟨hin, by rw [hOpen]; exact ho⟩
  | @release slot pc tasks hpc =>
    rw [openTasks_release s slot pc tasks rfl] at ho
    replace ho : p ∉ tasks ++ s.scopes.tail.flatten := ho
    cases pc with
    | fetchAdd =>
      by_cases hp : p = slot
      · subst hp
        exact .inr (by simp [State.consumeEffect])
      · refine .inl ⟨hin, ?_⟩
        rw [openTasks, hpc]
        exact not_mem_cons_of_ne_of_not_mem hp ho
    | _ => exact .inl ⟨hin, by rw [openTasks, hpc]; exact ho⟩
  | _ hpc =>
    refine .inl ⟨hin, ?_⟩
    simpa [openTasks, hpc, State.inferInsert] using ho

/-- Nobody attaches a done slot to a producer. -/
theorem faninProducers_orchMove {c : Nat} (hL : Life s) (hs : s.OrchMove s') (hc : Done s c) :
    s'.faninProducers c = s.faninProducers c := by
  cases hs with
  | @attach slot prod producers n hpc =>
    have hne := hL.ne_of_done hc (hL.pending_lt (t := slot) (by rw [hpc]; rfl)).2 (by simp)
    unfold State.attachProducer
    split
    · rfl
    · exact update_of_ne hne ..
  | @submit slot n pc => cases pc <;> rfl
  | @alloc slot pc => cases pc <;> rfl
  | _ => rfl

/-- A step of the orchestrator. -/
theorem performed_orchMove (hL : Life s) (hE : Edges s) (h : Performed s) (hs : s.OrchMove s') :
    Performed s' := by
  have hSched := orchMove_sched hs
  refine h.congr (releases_orchMove hs) (fun t ht => ?_) (scope_orchMove hs) fun c p hp ha => ?_
  · obtain ⟨hd, hb⟩ := not_selfAhead_iff.mp ht
    rcases done_of_orchMove hs hd with hd | ⟨-, rfl⟩
    · exact .inl (not_selfAhead_iff.mpr ⟨hd, by rwa [hSched] at hb⟩)
    · exact .inr (by simp [State.allocStep])
  · obtain ⟨hd, hb⟩ := not_consumerAhead_iff.mp ha
    rw [hSched] at hb
    rcases done_of_orchMove hs hd with hd | ⟨hpc, rfl⟩
    · rw [faninProducers_orchMove hL hs hd] at hp
      exact .inl ⟨hp, not_consumerAhead_iff.mpr ⟨hd, hb⟩⟩
    · -- an allocated slot has no producers
      replace hp : p ∈ s.faninProducers c := hp
      rw [hE.unattached c (by rw [hpc]; rfl)] at hp
      cases hp

/-- A step of the scheduler. -/
theorem performed_schedMove (h : Performed s) (hs : s.SchedMove s') :
    Performed s' := by
  have hFrame : s'.inScope = s.inScope ∧ openTasks s' = openTasks s ∧
      s'.faninProducers = s.faninProducers := by
    cases hs <;> exact ⟨rfl, rfl, rfl⟩
  obtain ⟨hIn, hOpen, hProd⟩ := hFrame
  refine h.congr (releases_schedMove hs) (fun t ht => ?_)
    (fun p hin ho => .inl ⟨by rwa [hIn] at hin, by rwa [hOpen] at ho⟩) fun c p hp ha => ?_
  · obtain ⟨hd, hb⟩ := not_selfAhead_iff.mp ht
    rcases done_of_schedMove hs hd with hd | hsnap
    · by_cases hold : s.sched.beforeSelf? = some t
      · -- the scheduler leaves this part of `on_task_complete` by the release
        right
        cases hs with
        | @consumeSelf slot pc hpc =>
          rw [hpc] at hold
          cases pc with
          | fetchAdd =>
            cases hold
            simp [State.consumeEffect]
          | _ => cases hold
        | check hpc =>
          rw [hpc] at hold
          simp only at hb
          split at hb <;> exact absurd hold hb
        | storeCompleted hpc | readProducers hpc | returned hpc | deferred hpc
        | consumeProducer hpc =>
          rw [hpc] at hold
          cases hold
        | _ hpc =>
          rw [hpc] at hold
          exact absurd hold hb
      · exact .inl (not_selfAhead_iff.mpr ⟨hd, hold⟩)
    · rw [hsnap] at hb
      exact absurd rfl hb
  · obtain ⟨hd, hb, hps⟩ := not_consumerAhead_iff.mp ha
    rw [hProd] at hp
    rcases done_of_schedMove hs hd with hd | hsnap
    · by_cases hold : ConsumerAhead s c p
      · right
        rcases hold with hn | hold | ⟨ps, hold, hmem⟩
        · exact absurd hd hn
        · cases hs with
          | check hpc | consumeSelf hpc =>
            rw [hpc] at hold
            simp only at hb
            split at hb <;> exact absurd hold hb
          | readProducers hpc =>
            -- all producers are ahead
            rw [hpc] at hold
            cases hold
            exact absurd hp (hps _ rfl)
          | storeCompleted hpc | returned hpc | deferred hpc | consumeProducer hpc =>
            rw [hpc] at hold
            cases hold
          | _ hpc =>
            rw [hpc] at hold
            exact absurd hold hb
        · cases hs with
          | deferred hpc =>
            rw [hpc] at hold
            exact absurd hmem (hps ps hold)
          | returned hpc =>
            rw [hpc] at hold
            cases hold
            cases hmem
          | @consumeProducer slot prod pc producers hpc =>
            rw [hpc] at hold
            have hdef := deferring_consumeNext s slot prod pc producers
            cases pc with
            | fetchAdd =>
              cases hold
              rcases mem_cons.mp hmem with rfl | hmem
              · simp [State.consumeEffect]
              · exact absurd hmem (hps _ hdef)
            | _ =>
              cases hold
              exact absurd hmem (hps _ hdef)
          | _ hpc =>
            rw [hpc] at hold
            cases hold
      · exact .inl ⟨hp, hold⟩
    · rw [hsnap] at hb
      exact absurd rfl hb

theorem performed_move (h : Performed s) (hs : Move s s') : Performed s' := by
  have hFrame : s'.releases = s.releases ∧ s'.inScope = s.inScope ∧ openTasks s' = openTasks s ∧
      s'.faninProducers = s.faninProducers := by
    cases hs with
    | submit hpc | shutdown hpc | scopeBegin hpc | alloc hpc | reserve hpc =>
      exact ⟨rfl, rfl, by simp [openTasks, hpc, State.reserve], rfl⟩
    | scopeEnd hpc hScopes => exact ⟨rfl, rfl, by simp [openTasks, hpc, hScopes], rfl⟩
    | _ => exact ⟨rfl, rfl, rfl, rfl⟩
  obtain ⟨hRel, hIn, hOpen, hProd⟩ := hFrame
  -- a job starts only where the scheduler is in none
  have hSched : s'.sched = s.sched ∨ s.sched.beforeSelf? = none ∧ s.sched.beforeDeferred? = none ∧
      s.sched.deferring? = none := by
    cases hs with
    | popCompletion hpc | popReady hpc | dispatch hpc | noWorker hpc =>
      rw [hpc]
      exact .inr ⟨rfl, rfl, rfl⟩
    | _ => exact .inl rfl
  refine h.congr (fun p => by rw [hRel]; exact Subset.refl _) (fun t ht => .inl ?_)
    (fun p hin ho => .inl ⟨by rwa [hIn] at hin, by rwa [hOpen] at ho⟩)
    fun c p hp ha => .inl ⟨by rwa [hProd] at hp, ?_⟩
  · obtain ⟨hd, hb⟩ := not_selfAhead_iff.mp ht
    refine not_selfAhead_iff.mpr ⟨done_of_move hs hd, ?_⟩
    rcases hSched with hSched | ⟨hnone, -, -⟩
    · rwa [hSched] at hb
    · rw [hnone]; simp
  · obtain ⟨hd, hb⟩ := not_consumerAhead_iff.mp ha
    refine not_consumerAhead_iff.mpr ⟨done_of_move hs hd, ?_⟩
    rcases hSched with hSched | ⟨-, hnone, hnone'⟩
    · rwa [hSched] at hb
    · rw [hnone, hnone']
      exact ⟨(by simp), (by simp)⟩

/-- **A release that is not ahead has been performed.** -/
theorem Performed.reach {ok : State → Act → Prop} (h : Reach step ok State.init s) :
    Performed s := by
  refine h.invariant performed_init fun s a s' hr hp _ hs => ?_
  rcases step_cases hs with ⟨-, hm⟩ | ⟨-, hm⟩ | ⟨-, -, hm⟩
  · exact performed_orchMove (Life.reach hr) (Edges.reach hr) hp hm
  · exact performed_schedMove hp hm
  · exact performed_move hp hm

/-! ## Every slot has a scope -/

/-- `submit` and `alloc` are called inside a scope. -/
def ScopedCalls (s : State) : Act → Prop
  | .submit .. | .alloc _ => s.scopes ≠ []
  | _ => True

instance : DecidableRel ScopedCalls := fun s a =>
  match a with
  | .submit .. | .alloc _ => inferInstanceAs (Decidable (s.scopes ≠ []))
  | .scopeBegin | .scopeEnd | .reserve _ | .shutdown | .orch | .popCompletion | .popReady _
  | .dispatch | .noWorker | .sched | .workerDone _ => inferInstanceAs (Decidable True)

/-- The call under way has a registration ahead. -/
def OrchPc.registers : OrchPc → Bool
  | .reserve .. => true
  | pc => pc.unregistered?.isSome

structure Scoped (s : State) : Prop where
  within : s.orch.registers = true → s.scopes ≠ []
  registered : ∀ p < s.nextTaskId, s.orch.unregistered? ≠ some p → s.inScope p = true

theorem scoped_init : Scoped State.init where
  within h := by cases h
  registered _ h := absurd h (Nat.not_lt_zero _)

theorem Scoped.congr (h : Scoped s)
    (hReg : s'.orch.registers = true → s.orch.registers = true ∧ s'.scopes = s.scopes)
    (hUn : s'.orch.unregistered? = s.orch.unregistered?) (hIn : s'.inScope = s.inScope)
    (hNext : s'.nextTaskId = s.nextTaskId) : Scoped s' where
  within hr := by
    obtain ⟨hr, hScopes⟩ := hReg hr
    rw [hScopes]
    exact h.within hr
  registered := by
    rw [hUn, hIn, hNext]
    exact h.registered

theorem registers_of_unregistered {pc : OrchPc} (h : pc.unregistered? = some p) :
    pc.registers = true := by
  unfold OrchPc.registers
  split
  · rfl
  · rw [h]; rfl

/-- The registration, in the scope that was open when the call began. -/
theorem Scoped.register (h : Scoped s) (slot : Nat) (hOld : s.orch.unregistered? = some slot)
    (hIn : s'.inScope = (s.registerTask slot).inScope) (hReg : s'.orch.registers = false)
    (hNext : s'.nextTaskId = s.nextTaskId) : Scoped s' where
  within hr := by rw [hReg] at hr; cases hr
  registered p hp _ := by
    have hopen := h.within (registers_of_unregistered hOld)
    rw [hIn]
    simp only [State.registerTask, if_neg hopen, update_apply]
    split_ifs with hne
    · rfl
    · rw [hNext] at hp
      exact h.registered p hp (by rw [hOld]; exact fun he => hne (Option.some.inj he).symm)

/-- A new slot is not registered yet. -/
theorem Scoped.reserveSlot (h : Scoped s) (hScopes : s'.scopes = s.scopes) (hopen : s.scopes ≠ [])
    (hOld : s.orch.unregistered? = none) (hUn : s'.orch.unregistered? = some s.nextTaskId)
    (hIn : s'.inScope = s.inScope) (hNext : s'.nextTaskId = s.nextTaskId + 1) : Scoped s' where
  within _ := by rw [hScopes]; exact hopen
  registered p hp hne := by
    rw [hUn] at hne
    rw [hNext] at hp
    rw [hIn]
    refine h.registered p ?_ (by rw [hOld]; nofun)
    have : p ≠ s.nextTaskId := fun he => hne (by rw [he])
    omega

/-- A step of the orchestrator. -/
theorem scoped_orchMove (h : Scoped s) (hs : s.OrchMove s') : Scoped s' := by
  cases hs with
  | attach hpc =>
    unfold State.attachProducer
    split <;> exact h.congr (fun _ => ⟨by rw [hpc]; rfl, rfl⟩) (by rw [hpc]; rfl) rfl rfl
  | @submit slot n pc hpc =>
    cases pc with
    | fanoutReleased => exact h.register slot (by rw [hpc]; rfl) rfl rfl rfl
    | state =>
      by_cases hn : n = 0 <;>
        refine h.congr (fun hr => ?_) ?_ rfl rfl <;>
        simp_all [State.submitStep, OrchPc.registers, OrchPc.unregistered?, OrchPc.totalling?]
    | push => exact h.congr (fun hr => by cases hr) (by rw [hpc]; rfl) rfl rfl
    | _ => exact h.congr (fun _ => ⟨by rw [hpc]; rfl, rfl⟩) (by rw [hpc]; rfl) rfl rfl
  | @alloc slot pc hpc =>
    cases pc with
    | fanoutReleased => exact h.register slot (by rw [hpc]; rfl) rfl rfl rfl
    | state | active => exact h.congr (fun hr => by cases hr) (by rw [hpc]; rfl) rfl rfl
    | _ => exact h.congr (fun _ => ⟨by rw [hpc]; rfl, rfl⟩) (by rw [hpc]; rfl) rfl rfl
  | scopeEnded hpc | releaseTask hpc =>
    exact h.congr (fun hr => by cases hr) (by rw [hpc]; rfl) rfl rfl
  | @release slot pc tasks hpc =>
    refine h.congr (fun hr => ?_) ?_ rfl rfl
    · simp only at hr
      split at hr <;> cases hr
    · rw [hpc]
      simp only
      split <;> rfl
  | _ hpc =>
    exact h.congr (fun _ => ⟨by rw [hpc]; rfl, rfl⟩) (by rw [hpc]; rfl) rfl rfl

/-- One step, with calls inside scopes. -/
theorem scoped_move (h : Scoped s) (hs : Move s s')
    (hCall : s.orch = .idle → s'.orch.registers = true → s.scopes ≠ []) : Scoped s' := by
  cases hs with
  | submit hpc =>
    refine ⟨fun _ => hCall hpc rfl, fun p hp _ => h.registered p hp ?_⟩
    rw [hpc]
    nofun
  | alloc hpc =>
    exact h.reserveSlot rfl (hCall hpc rfl) (by rw [hpc]; rfl) rfl rfl rfl
  | reserve hpc =>
    exact h.reserveSlot rfl (h.within (by rw [hpc]; rfl)) (by rw [hpc]; rfl) rfl rfl rfl
  | scopeBegin hpc =>
    refine h.congr (fun hr => ?_) rfl rfl rfl
    rw [hpc] at hr
    cases hr
  | scopeEnd hpc | shutdown hpc =>
    exact h.congr (fun hr => by cases hr) (by rw [hpc]; rfl) rfl rfl
  | _ => exact h.congr (fun hr => ⟨hr, rfl⟩) rfl rfl rfl

/-- A call that registers a slot begins inside a scope. -/
theorem scopes_of_call {a : Act} (hok : ScopedCalls s a) (hs : step s a = some s')
    (hpc : s.orch = .idle) (hr : s'.orch.registers = true) :
    s.scopes ≠ [] := by
  cases a with
  | submit | alloc => exact hok
  | reserve | shutdown => simp [step, hpc] at hs
  | orch => simp [step, State.orchStep, hpc] at hs
  | scopeEnd =>
    simp only [step] at hs
    split at hs <;> cases hs
    cases hr
  | scopeBegin | workerDone =>
    simp only [step] at hs
    split at hs <;> cases hs
    simp [State.workerDone, hpc, OrchPc.registers, OrchPc.unregistered?, OrchPc.totalling?] at hr
  | popCompletion | popReady | dispatch | noWorker =>
    simp only [step] at hs
    split at hs <;> cases hs
    simp [hpc, OrchPc.registers, OrchPc.unregistered?, OrchPc.totalling?] at hr
  | sched =>
    have hkeep : s'.orch = s.orch := by cases State.schedStep_cases hs <;> rfl
    rw [hkeep, hpc] at hr
    cases hr

/-- Calls inside scopes register their tasks. -/
theorem Scoped.reach (h : Reach step ScopedCalls State.init s) : Scoped s := by
  refine h.invariant scoped_init fun s a s' _ hsc hok hs => ?_
  rcases step_cases hs with ⟨-, hm⟩ | ⟨-, hm⟩ | ⟨-, -, hm⟩
  · exact scoped_orchMove hsc hm
  · cases hm <;> exact hsc.congr (fun hr => ⟨hr, rfl⟩) rfl rfl rfl
  · exact scoped_move hsc hm (scopes_of_call hok hs)

/-! ## The last release does not miss -/

/-- The slot is CONSUMED, or a thread is about to see that it can be. -/
def Settling (s : State) (p : Nat) : Prop :=
  s.state p = .consumed ∨ InConsume s p (.readTotal (s.fanoutReleased p)) ∨
    InConsume s p .loadState ∨ InConsume s p .cas

/-- A slot whose releases have reached its total is settled. -/
def Settles (s : State) : Prop :=
  ∀ p, s.orch.totalling? ≠ some p → s.fanoutTotal p + 1 ≤ s.fanoutReleased p → Settling s p

/-- A slot that everybody has released is done. -/
theorem Refs.done_of_full (h : Refs s) (hTot : s.orch.totalling? ≠ some p)
    (hfull : s.fanoutTotal p + 1 ≤ s.fanoutReleased p) : Done s p := by
  have hcount := h.count p hTot
  have hall := h.allReleased (p := p) (r := (s.releases p).length) le_rfl (by omega)
    (by omega)
  by_contra hn
  exact h.selfAhead p (.inl hn) (hall mem_cons_self)

/-- Steps outside of `try_consume` and `release_ref`. -/
theorem Settles.congr (h : Settles s)
    (hFull : ∀ p, s'.orch.totalling? ≠ some p → s'.fanoutTotal p + 1 ≤ s'.fanoutReleased p →
      s.orch.totalling? ≠ some p ∧ s.fanoutTotal p + 1 ≤ s.fanoutReleased p ∧
        s'.fanoutReleased p = s.fanoutReleased p)
    (hState : ∀ p, s.state p = .consumed → s'.state p = .consumed)
    (hIn : ∀ p pc, pc ≠ .fetchAdd → InConsume s p pc → InConsume s' p pc) : Settles s' := by
  intro p hTot hfull
  obtain ⟨hTot, hfull, hsame⟩ := hFull p hTot hfull
  rw [Settling, hsame]
  exact (h p hTot hfull).imp (hState p)
    (Or.imp (hIn p _ (by simp)) (Or.imp (hIn p _ (by simp)) (hIn p _ (by simp))))

/-- A step of `try_consume` or `release_ref`, whichever thread is in it: the thread that held
the slot's hope passes it on to its next step, or has found the slot consumed. -/
theorem Settles.consume {x : Holder} {pc : ConsumePc} (hR : Refs s) (h : Settles s)
    (hs : ConsumeStep s s' p x pc)
    (hTotalling : ∀ q, s'.orch.totalling? ≠ some q → s.orch.totalling? ≠ some q) : Settles s' := by
  obtain ⟨-, hIn, hNext, -, orch, sched, rfl⟩ := hs
  have hStay (q : Nat) (hq : s.state q = .consumed) :
      (s.consumeEffect p x pc).state q = .consumed :=
    (consumeEffect_consumed_iff s p x pc q).mpr (.inl hq)
  intro q hTot hfull
  replace hTot := hTotalling q hTot
  replace hfull : s.fanoutTotal q + 1 ≤ (s.consumeEffect p x pc).fanoutReleased q := hfull
  rw [Settling]
  by_cases hf : q = p ∧ pc = .fetchAdd
  · -- the value that the `fetch_add` returns is the counter
    obtain ⟨rfl, rfl⟩ := hf
    refine .inr (.inl (hNext _ ?_))
    simp [State.consumeNext, State.consumeEffect]
  have hsame : (s.consumeEffect p x pc).fanoutReleased q = s.fanoutReleased q := by
    cases pc with
    | fetchAdd => exact update_of_ne (fun he => hf ⟨he, rfl⟩) ..
    | _ => rfl
  simp only [hsame] at hfull ⊢
  have hdone := hR.done_of_full hTot hfull
  rcases h q hTot hfull with hc | hc | hc | hc
  · exact .inl (hStay q hc)
  · rcases hIn q _ hc with hc | ⟨rfl, rfl⟩
    · exact .inr (.inl hc)
    · -- the comparison succeeds
      exact .inr (.inr (.inl (hNext _ (if_pos hfull))))
  · rcases hIn q _ hc with hc | ⟨rfl, rfl⟩
    · exact .inr (.inr (.inl hc))
    · rcases hdone with hd | hd
      · exact .inr (.inr (.inr (hNext _ (if_pos hd))))
      · exact .inl (hStay q hd)
  · rcases hIn q _ hc with hc | ⟨rfl, rfl⟩
    · exact .inr (.inr (.inr hc))
    · rcases hdone with hd | hd
      · exact .inl ((consumeEffect_consumed_iff s q x .cas q).mpr (.inr ⟨rfl, rfl, hd⟩))
      · exact .inl (hStay q hd)

/-- Outside of `release_ref` no slot reaches its total. -/
theorem full_orchMove (hL : Life s) (hR : Refs s) (hSc : Scoped s) (hs : s.OrchMove s')
    (hNone : s.orch.consume? = none) (p : Nat) (hTot : s'.orch.totalling? ≠ some p)
    (hfull : s'.fanoutTotal p + 1 ≤ s'.fanoutReleased p) :
    s.orch.totalling? ≠ some p ∧ s.fanoutTotal p + 1 ≤ s.fanoutReleased p ∧
      s'.fanoutReleased p = s.fanoutReleased p := by
  cases hs with
  | @attach slot prod producers n hpc =>
    -- a new consumer raises the total, so what has reached it had reached the old one
    by_cases hc : s.state prod = .consumed
    · simp only [State.attachProducer, if_pos hc] at hTot hfull ⊢
      exact ⟨by rw [hpc]; exact hTot, hfull, trivial⟩
    · simp only [State.attachProducer, if_neg hc] at hTot hfull ⊢
      refine ⟨by rw [hpc]; exact hTot, ?_, trivial⟩
      simp only [update_apply] at hfull
      split_ifs at hfull with hp
      · rw [hp] at hfull ⊢
        omega
      · exact hfull
  | @submit slot n pc hpc =>
    rw [hpc]
    cases pc with
    | fanoutTotal =>
      have hne : p ≠ slot := fun he => hTot (by rw [he]; rfl)
      simp only [State.submitStep, update_of_ne hne] at hfull
      exact ⟨hTot, hfull, rfl⟩
    | fanoutReleased =>
      -- nobody has released the slot
      have hne : p ≠ slot := by
        rintro rfl
        simp [State.submitStep] at hfull
      simp only [State.submitStep, update_of_ne hne] at hfull ⊢
      exact ⟨fun he => hne (Option.some.inj he).symm, hfull, trivial⟩
    | state | push => exact ⟨(fun h => by cases h), hfull, rfl⟩
    | _ => exact ⟨hTot, hfull, rfl⟩
  | @alloc slot pc hpc =>
    cases pc with
    | fanoutTotal | fanoutReleased =>
      have hne : p ≠ slot := fun he => hTot (by rw [he]; rfl)
      simp only [State.allocStep, update_of_ne hne] at hfull ⊢
      exact ⟨by rw [hpc]; exact hTot, hfull, trivial⟩
    | state =>
      -- the slot is in a scope, whose release is ahead
      have hlt := (hL.pending_lt (t := slot) (by rw [hpc]; rfl)).1
      have hin := hSc.registered slot hlt (by rw [hpc]; rintro ⟨⟩)
      obtain ⟨hrel, htotal⟩ := hR.allocating slot hpc
      rw [if_pos hin] at htotal
      replace hfull : s.fanoutTotal p + 1 ≤ s.fanoutReleased p := hfull
      refine ⟨?_, hfull, rfl⟩
      rw [hpc]
      rintro ⟨⟩
      omega
    | active => exact ⟨by rw [hpc]; rintro ⟨⟩, hfull, rfl⟩
    | insert | fanin => exact ⟨by rw [hpc]; exact hTot, hfull, rfl⟩
  | release hpc => rw [hpc] at hNone; cases hNone
  | _ hpc =>
    exact ⟨by rw [hpc]; exact hTot, hfull, rfl⟩

theorem totalling_of_consume {pc : OrchPc} {x : Nat × ConsumePc} (h : pc.consume? = some x) :
    pc.totalling? = none := by
  cases pc with
  | release => rfl
  | _ => cases h

/-- A step of the orchestrator. -/
theorem settles_orchMove (hL : Life s) (hR : Refs s) (hSc : Scoped s) (h : Settles s)
    (hs : s.OrchMove s') : Settles s' := by
  cases hx : s.orch.consume? with
  | none =>
    exact h.congr (full_orchMove hL hR hSc hs hx)
      (fun p hp => (consumed_orchMove_iff hL hs p).mpr (.inl hp))
      fun p pc hne => (inConsume_orchMove hs hx p pc hne).mpr
  | some x =>
    obtain ⟨p, y, pc, hc⟩ := consumeStep_orchMove hs hx
    exact h.consume hR hc fun q _ => by rw [totalling_of_consume hx]; nofun

/-- A step of the scheduler. -/
theorem settles_schedMove (hL : Life s) (hR : Refs s) (h : Settles s) (hs : s.SchedMove s') :
    Settles s' := by
  have hOrch : s'.orch = s.orch := by cases hs <;> rfl
  cases hx : s.sched.consume? with
  | none =>
    have hSame : s'.fanoutTotal = s.fanoutTotal ∧ s'.fanoutReleased = s.fanoutReleased := by
      cases hs with
      | consumeSelf hpc | consumeProducer hpc => rw [hpc] at hx; cases hx
      | _ => exact ⟨rfl, rfl⟩
    refine h.congr (fun p hTot hfull => ?_)
      (fun p hp => (consumed_schedMove_iff hL hs p).mpr (.inl hp))
      fun p pc hne => (inConsume_schedMove hs hx p pc hne).mpr
    rw [hOrch] at hTot
    rw [hSame.1, hSame.2] at hfull
    exact ⟨hTot, hfull, by rw [hSame.2]⟩
  | some x =>
    obtain ⟨p, y, pc, hc⟩ := consumeStep_schedMove hs hx
    exact h.consume hR hc fun q hTot => by rwa [hOrch] at hTot

/-- One other step. -/
theorem settles_move (hL : Life s) (h : Settles s) (hs : Move s s') :
    Settles s' := by
  refine h.congr (fun p hTot hfull => ?_) (fun p => (consumed_move_iff hL hs p).mpr)
    fun p pc _ => (inConsume_move hs p pc).mpr
  cases hs with
  | submit hpc | shutdown hpc | scopeEnd hpc | alloc hpc | reserve hpc =>
    exact ⟨by rw [hpc]; nofun, hfull, rfl⟩
  | _ => exact ⟨hTot, hfull, rfl⟩

/-- **A slot with all its releases is CONSUMED or about to be**, if every call is made inside a
scope. -/
theorem Settles.reach (h : Reach step ScopedCalls State.init s) : Settles s := by
  refine h.invariant (fun p _ hfull => absurd hfull (Nat.not_succ_le_zero _))
    fun s a s' hr hset _ hs => ?_
  have hL := Life.reach hr
  have hR := Refs.reach hr
  rcases step_cases hs with ⟨-, hm⟩ | ⟨-, hm⟩ | ⟨-, -, hm⟩
  · exact settles_orchMove hL hR (Scoped.reach hr) hset hm
  · exact settles_schedMove hL hR hset hm
  · exact settles_move hL hset hm

/-! ## The end of a run -/

/-- A release is part of the completion of some slot. -/
theorem completing_of_beforeDeferred (h : pc.beforeDeferred? = some t) :
    pc.completing? = some t := by
  cases pc <;> first | exact h | cases h

theorem completing_of_deferring {ps : List Nat} (h : pc.deferring? = some (t, ps)) :
    pc.completing? = some t := by
  cases pc with
  | consumeProducer slot prod pc producers => cases pc <;> (cases h; rfl)
  | deferred => cases h; rfl
  | _ => cases h

theorem completing_of_consume {x : Nat × ConsumePc} (h : pc.consume? = some x) :
    ∃ t, pc.completing? = some t := by
  cases pc with
  | consumeSelf slot | consumeProducer slot => exact ⟨slot, rfl⟩
  | _ => cases h

/-- A slot whose releases are all performed has reached its total. -/
theorem Refs.full_of_allReleased (hE : Edges s) (h : Refs s) (hTot : s.orch.totalling? ≠ some p)
    (hall : AllReleased s p) :
    s.fanoutTotal p + 1 ≤ s.fanoutReleased p := by
  have hnodup : (Hier.expected s p).Nodup := by
    have hcons : ((s.fanoutConsumers p).map Holder.consumer).Nodup :=
      (hE.consumersNodup p).map fun _ _ he => Holder.consumer.inj he
    unfold Hier.expected
    split <;> simp [hcons]
  have hle := (hnodup.subperm hall).length_le
  rw [h.count p hTot]
  have htotal := h.total p hTot
  rw [Hier.expected] at hle
  by_cases hin : s.inScope p = true
  · simp [hin] at hle htotal
    omega
  · simp [hin] at hle htotal
    omega

/--
**No leaked slot.** In every run in which `submit` and `alloc` are called inside a scope: in
every state where all scopes have ended, the orchestrator is in no call and `on_task_complete`
has returned for every submitted task, every slot is CONSUMED.
-/
theorem no_leaked_slot (h : Reach step ScopedCalls State.init s) (hScopes : s.scopes = [])
    (hOrch : s.orch = .idle)
    (hReturned : ∀ t < s.nextTaskId, s.phase t = .returned ∨ s.phase t = .allocated) :
    ∀ p < s.nextTaskId, s.state p = .consumed := by
  have hL := Life.reach h
  have hE := Edges.reach h
  have hR := Refs.reach h
  have hP := Performed.reach h
  -- the scheduler is in no completion
  have hIdle (t : Nat) : s.sched.completing? ≠ some t := by
    intro ht
    obtain ⟨hph, hlt⟩ := hL.phase_completing ht
    rcases hReturned t hlt with hr | hr <;> rw [hph] at hr <;> cases hr
  have hDone (t : Nat) (ht : t < s.nextTaskId) : Done s t := by
    rw [hL.done_iff]
    exact .inr (hReturned t ht)
  intro p hp
  have hTot : s.orch.totalling? ≠ some p := by rw [hOrch]; nofun
  have hall : AllReleased s p := by
    intro x hx
    unfold expected at hx
    rw [(Scoped.reach h).registered p hp (by rw [hOrch]; nofun)] at hx
    simp only [if_true, mem_cons, mem_append, not_mem_nil, or_false,
      mem_map] at hx
    rcases hx with rfl | rfl | ⟨c, hc, rfl⟩
    · exact hP.self p (not_selfAhead_iff.mpr
        ⟨hDone p hp, fun hb => hIdle p (completing_of_beforeSelf hb)⟩)
    · exact hP.scope p ((Scoped.reach h).registered p hp (by rw [hOrch]; nofun))
        (by simp [openTasks, hOrch, hScopes])
    · have hedge := (hE.consumer_iff p c).mp hc
      exact hP.consumer c p hedge (not_consumerAhead_iff.mpr ⟨hDone c (hE.older p c hedge).2,
        fun hb => hIdle c (completing_of_beforeDeferred hb),
        fun ps hps => absurd (completing_of_deferring hps) (hIdle c)⟩)
  -- and nobody is on the way to find the slot released
  have hNobody (pc : ConsumePc) : ¬ InConsume s p pc := by
    rintro (hc | hc)
    · rw [hOrch] at hc
      cases hc
    · obtain ⟨t, ht⟩ := completing_of_consume hc
      exact hIdle t ht
  rcases Settles.reach h p hTot (hR.full_of_allReleased hE hTot hall) with hc | hc | hc | hc
  · exact hc
  all_goals exact absurd hc (hNobody _)

/-- Slot 0 is allocated; the scope of slot 1 ends before it completes. Between the `fetch_add` of
slot 1's own release and its reading of the total, slot 2 attaches to it: the release misses, and
it is slot 2's completion that consumes slot 1. -/
def releaseMisses : List Act :=
  [Act.scopeBegin, .alloc 0x3000] ++ replicate 6 Act.orch ++ [Act.scopeBegin] ++
    submitWriter tensorA ++
    [Act.scopeEnd] ++ replicate 4 Act.orch ++ startTask ++ [Act.workerDone 1, .popCompletion] ++
    replicate 4 Act.sched ++ [Act.submit .sub [[(tensorA, .input)]] [], .reserve 0] ++
    replicate 4 Act.orch ++ [Act.sched] ++ replicate 7 Act.orch ++ replicate 2 Act.sched ++
    startTask ++ [Act.workerDone 2, .popCompletion] ++ replicate 15 Act.sched ++
    [Act.scopeEnd] ++ replicate 17 Act.orch

/-- A release that finds its task incomplete. -/
theorem no_leaked_slot_releaseMisses :
    ∃ s, Reach step ScopedCalls State.init s ∧ s.nextTaskId = 3 ∧ 2 ∈ s.fanoutConsumers 1 ∧
      ∀ p < 3, s.state p = .consumed := by
  refine Reach.exists_of_run_imp (P := fun s => s.nextTaskId = 3 ∧ 2 ∈ s.fanoutConsumers 1 ∧
      s.scopes = [] ∧ s.orch = .idle ∧ ∀ t < s.nextTaskId,
      s.phase t = .returned ∨ s.phase t = .allocated) releaseMisses (by decide +kernel)
    fun s hReach ⟨hn, hc, hScopes, hOrch, hRet⟩ => ?_
  refine ⟨hn, hc, ?_⟩
  rw [← hn]
  exact no_leaked_slot hReach hScopes hOrch hRet

end PtoRuntime.Hier
