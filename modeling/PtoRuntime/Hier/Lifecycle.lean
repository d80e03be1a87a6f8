import PtoRuntime.Hier.Model
import PtoRuntime.Lib.Tokens

/-!
# Hierarchical runtime — the life of a slot

Every slot that is READY but not pushed, queued, being dispatched, reported by its
workers or in `on_task_complete` is at exactly one place of the system, and its
`state` is the one that place goes with. So a slot is dispatched once, completed
once and has `on_task_complete` run for it once.

Main results: `Life.reach`, `done_step`.
-/

namespace PtoRuntime.Hier

open Lib Function List Option

/-! ## Places -/

/-- The phases that stand for a place of the system. -/
def Phase.held : Phase → Bool
  | .ready | .queued | .dispatching | .finished | .completing | .completed => true
  | .unsubmitted | .waiting | .executing | .returned | .allocated => false

/-- The phases before the first worker starts. -/
def Phase.beforeRun : Phase → Bool
  | .unsubmitted | .waiting | .ready | .queued | .dispatching => true
  | _ => false

/-- The states a slot of the phase can be in. -/
def Phase.Allows : Phase → TaskState → Prop
  | .unsubmitted, st => st = .free
  | .waiting, st => st = .pending
  | .ready, st | .queued, st | .dispatching, st => st = .ready
  | .executing, st | .finished, st | .completing, st => st = .running
  | .completed, st | .returned, st | .allocated, st => st = .completed ∨ st = .consumed

/-- The slot whose submission has not stored a state yet. -/
def OrchPc.pending? : OrchPc → Option Nat
  | .lookup slot .. | .insert slot .. | .attach slot .. => some slot
  | .submit _ _ .push => none
  | .submit slot .. => some slot
  | .alloc _ .active => none
  | .alloc slot _ => some slot
  | _ => none

def OrchPc.tokens : OrchPc → List (Nat × Phase)
  | .submit slot _ .push => [(slot, .ready)]
  | _ => []

/-- The slot whose `on_task_complete` runs, past its first store. -/
def SchedPc.completing? : SchedPc → Option Nat
  | .snapshot slot | .notify slot _ | .check slot .. | .casReady slot .. | .push slot ..
  | .consumeSelf slot _ | .readProducers slot | .deferred slot _
  | .consumeProducer slot .. => some slot
  | _ => none

def SchedPc.tokens : SchedPc → List (Nat × Phase)
  | .idle => []
  | .dispatch _ slot => [(slot, .dispatching)]
  | .storeCompleted slot => [(slot, .completing)]
  | .push slot consumer _ => [(consumer, .ready), (slot, .completed)]
  | .snapshot slot | .notify slot _ | .check slot .. | .casReady slot ..
  | .consumeSelf slot _ | .readProducers slot | .deferred slot _
  | .consumeProducer slot .. => [(slot, .completed)]

def queueTokens (q : WorkerType → List Nat) : List (Nat × Phase) :=
  (q .nextLevel ++ q .sub).map (·, .queued)

def State.tokens (s : State) : List (Nat × Phase) :=
  s.orch.tokens ++ s.sched.tokens ++ queueTokens s.readyQueue ++
    s.completionQueue.map (·, .finished)

/-- A push adds one token. -/
theorem queueTokens_push (q : WorkerType → List Nat) (w : WorkerType) (t : Nat) :
    (queueTokens (update q w (q w ++ [t]))).Perm ((t, .queued) :: queueTokens q) := by
  rw [perm_iff_count]
  intro x
  cases w <;> (simp [queueTokens, count_cons]; omega)

variable {t slot : Nat} {s s' : State} {o : OrchPc} {sc : SchedPc} {a b : Phase}

/-- A pop takes one token. -/
theorem queueTokens_pop {q : WorkerType → List Nat} {w : WorkerType} {rest : List Nat}
    (h : q w = t :: rest) :
    (queueTokens q).Perm ((t, .queued) :: queueTokens (update q w rest)) := by
  rw [perm_iff_count]
  intro x
  cases w
  · simp [queueTokens, h, count_cons]
  · simp [queueTokens, h, count_cons]
    omega

/-! ## The invariant -/

/-- The places of `L` are those that the phases name. -/
abbrev Located (L : List (Nat × Phase)) (phase : Nat → Phase) : Prop :=
  Tokens (fun p : Phase => p.held = true) L phase

structure Life (s : State) : Prop where
  located : Tokens (fun p : Phase => p.held = true) s.tokens s.phase
  allows : ∀ t, (s.phase t).Allows (s.state t)
  fresh : ∀ t, s.nextTaskId ≤ t → s.phase t = .unsubmitted
  pending : ∀ t, t < s.nextTaskId → (s.phase t = .unsubmitted ↔ s.orch.pending? = some t)
  last : ∀ t, s.orch.pending? = some t → t + 1 = s.nextTaskId
  executing : ∀ t, 0 < s.executing t →
    s.phase t = .executing ∧ s.subCompleteCount t + s.executing t = s.groupSize t
  beforeRun : ∀ t, (s.phase t).beforeRun = true → s.subCompleteCount t = 0

theorem life_init : Life State.init where
  located := ⟨nodup_nil, fun t a => by
    simp only [State.tokens, queueTokens, State.init, OrchPc.tokens, SchedPc.tokens,
      append_nil, map_nil, not_mem_nil, false_iff]
    rintro ⟨rfl, h⟩
    cases h⟩
  allows _ := rfl
  fresh _ _ := rfl
  pending t h := absurd h (Nat.not_lt_zero t)
  last _ h := by cases h
  executing _ h := absurd h (Nat.lt_irrefl 0)
  beforeRun _ _ := rfl

/-- Steps that move no slot. -/
theorem Life.frame (h : Life s) {state faninCount
    faninReleased fanoutConsumers fanoutTotal fanoutReleased outputKeys faninProducers tensormap
    scopes activeTasks slabReleased live bumped inScope releases consumptions}
    (hOrch : o.tokens = s.orch.tokens ∧ o.pending? = s.orch.pending?)
    (hSched : sc.tokens = s.sched.tokens) (hAllows : ∀ t, (s.phase t).Allows (state t)) :
    Life { s with
      orch := o, sched := sc, state := state, faninCount := faninCount
      faninReleased := faninReleased, fanoutConsumers := fanoutConsumers
      fanoutTotal := fanoutTotal, fanoutReleased := fanoutReleased, outputKeys := outputKeys
      faninProducers := faninProducers, tensormap := tensormap, scopes := scopes
      activeTasks := activeTasks, slabReleased := slabReleased, live := live, bumped := bumped
      inScope := inScope, releases := releases, consumptions := consumptions } :=
  { h with
    located := by simpa only [State.tokens, hOrch.1, hSched] using h.located
    allows := hAllows
    pending := fun t ht => hOrch.2 ▸ h.pending t ht
    last := fun t ht => h.last t (hOrch.2 ▸ ht) }

theorem Life.allows_of (h : Life s) (ha : s.phase t = a) (hab : ∀ st, a.Allows st → b.Allows st) :
    b.Allows (s.state t) :=
  hab _ (ha ▸ h.allows t)

/-- What a step owes that takes slot `t` to the phase `b`, with the tokens already
accounted for: the slot was submitted or is the pending one, which then is not
pending any more, and no worker runs it. -/
theorem Life.move (h : Life s) {state
    executing subCompleteCount readyQueue completionQueue pushes releases}
    (hLocated : Located (State.tokens { s with
      orch := o, sched := sc, readyQueue := readyQueue, completionQueue := completionQueue })
      (update s.phase t b)) (hState : ∀ u, u ≠ t → state u = s.state u)
    (hAllows : b.Allows (state t)) (hLt : t < s.nextTaskId) (hb : b ≠ .unsubmitted)
    (hPending : ∀ u, u ≠ t → (o.pending? = some u ↔ s.orch.pending? = some u))
    (hNot : o.pending? ≠ some t) (hExec : ∀ u, u ≠ t → executing u = s.executing u)
    (hSub : ∀ u, u ≠ t → subCompleteCount u = s.subCompleteCount u)
    (hRun : 0 < executing t → b = .executing ∧ subCompleteCount t + executing t = s.groupSize t)
    (hBefore : b.beforeRun = true → subCompleteCount t = 0) :
    Life { s with
      orch := o, sched := sc, phase := update s.phase t b, state := state
      executing := executing, subCompleteCount := subCompleteCount, readyQueue := readyQueue
      completionQueue := completionQueue, pushes := pushes, releases := releases } := by
  have hAt : update s.phase t b t = b := update_self ..
  have hNe {u : Nat} (hu : u ≠ t) : update s.phase t b u = s.phase u :=
    update_of_ne hu ..
  refine ⟨hLocated, fun u => ?_, fun u hu => ?_, fun u hu => ?_, fun u hu => ?_, fun u hu => ?_,
    fun u hu => ?_⟩ <;> dsimp only at *
  · by_cases hut : u = t
    · rw [hut, hAt]
      exact hAllows
    · rw [hNe hut, hState u hut]
      exact h.allows u
  · rw [hNe (by omega)]
    exact h.fresh u hu
  · by_cases hut : u = t
    · rw [hut, hAt]
      exact iff_of_false hb hNot
    · rw [hNe hut, hPending u hut]
      exact h.pending u hu
  · have hut : u ≠ t := fun he => hNot (he ▸ hu)
    exact h.last u ((hPending u hut).mp hu)
  · by_cases hut : u = t
    · rw [hut] at hu ⊢
      rw [hAt]
      exact hRun hu
    · rw [hExec u hut] at hu
      rw [hNe hut, hExec u hut, hSub u hut]
      exact h.executing u hu
  · by_cases hut : u = t
    · rw [hut] at hu ⊢
      exact hBefore (hAt ▸ hu)
    · rw [hSub u hut]
      exact h.beforeRun u (hNe hut ▸ hu)

/-! ## The orchestrator's steps -/

/-- The pending slot is unsubmitted and known to the allocator. -/
theorem Life.pending_lt (h : Life s) (ht : s.orch.pending? = some t) :
    t < s.nextTaskId ∧ s.phase t = .unsubmitted := by
  have hlt : t < s.nextTaskId := by
    have := h.last t ht
    omega
  exact ⟨hlt, (h.pending t hlt).mpr ht⟩

theorem Life.not_executing (h : Life s) (ht : s.phase t ≠ .executing) :
    ¬ 0 < s.executing t :=
  fun hpos => ht (h.executing t hpos).1

theorem Life.lt_of_phase (h : Life s) (ht : s.phase t ≠ .unsubmitted) :
    t < s.nextTaskId := by
  by_contra hge
  exact ht (h.fresh t (by omega))

/-- A submitted slot is not the pending one. -/
theorem Life.not_pending (h : Life s) (ht : s.phase t ≠ .unsubmitted) :
    s.orch.pending? ≠ some t :=
  fun hp => ht (h.pending_lt hp).2

/-- A held slot is submitted, and so not the pending one. -/
theorem Life.token (h : Life s) (ht : (t, a) ∈ s.tokens) :
    s.phase t = a ∧ t < s.nextTaskId ∧ s.orch.pending? ≠ some t := by
  have hp := h.located.label_eq ht
  have hne : s.phase t ≠ .unsubmitted := by
    rw [hp]
    rintro rfl
    cases h.located.held_of_mem ht
  exact ⟨hp, h.lt_of_phase hne, h.not_pending hne⟩

/-- The pending slot gets its first state and leaves `unsubmitted`. -/
theorem Life.submit (h : Life s) {st : TaskState} {releases} (hPend : s.orch.pending? = some t)
    (hLocated : Located (State.tokens { s with orch := o }) (update s.phase t b))
    (hAllows : b.Allows st) (hb : b ≠ .unsubmitted) (hPending : o.pending? = none) :
    Life { s with
      state := update s.state t st, phase := update s.phase t b, orch := o
      releases := releases } := by
  obtain ⟨hlt, hun⟩ := h.pending_lt hPend
  refine h.move hLocated (fun u hu => update_of_ne hu ..)
    ((update_self t st s.state).symm ▸ hAllows) hlt hb (fun u hu => ?_)
    (by rw [hPending]; nofun) (fun _ _ => rfl) (fun _ _ => rfl)
    (fun hpos => absurd hpos (h.not_executing (by rw [hun]; nofun)))
    fun _ => h.beforeRun t (by rw [hun]; rfl)
  rw [hPending, hPend]
  exact iff_of_false nofun fun he => hu (some.inj he).symm

/-- A slot moves on; its `state` may change with it, nothing else does. -/
theorem Life.advance (h : Life s) {state readyQueue completionQueue pushes} (hph : s.phase t = a)
    (hLocated : Located (State.tokens { s with
      orch := o, sched := sc, readyQueue := readyQueue, completionQueue := completionQueue })
      (update s.phase t b)) (hState : ∀ u, u ≠ t → state u = s.state u)
    (hAllows : b.Allows (state t)) (hStep : a ≠ .unsubmitted ∧ a ≠ .executing ∧ b ≠ .unsubmitted ∧
      (b.beforeRun = true → a.beforeRun = true)) (hPending : o.pending? = s.orch.pending?) :
    Life { s with
      orch := o, sched := sc, phase := update s.phase t b, state := state
      readyQueue := readyQueue, completionQueue := completionQueue, pushes := pushes } := by
  obtain ⟨hsub, hexec, hb, hBefore⟩ := hStep
  rw [← hph] at hsub hexec hBefore
  exact h.move hLocated hState hAllows (h.lt_of_phase hsub) hb (fun u _ => by rw [hPending])
    (hPending ▸ h.not_pending hsub) (fun _ _ => rfl) (fun _ _ => rfl)
    (fun hpos => absurd hpos (h.not_executing hexec)) fun hbf => h.beforeRun t (hBefore hbf)

/-- A step of a submission. -/
theorem life_submitStep {n : Nat} {pc : SubmitPc} (h : Life s) (hpc : s.orch = .submit slot n pc) :
    Life (s.submitStep slot n pc) := by
  cases pc with
  | state =>
    have hPend : s.orch.pending? = some slot := by rw [hpc]; rfl
    have hun : ¬ (s.phase slot).held = true := by
      rw [(h.pending_lt hPend).2]
      nofun
    simp only [State.submitStep]
    split
    · refine h.submit hPend ?_ rfl nofun rfl
      simpa [State.tokens, hpc, OrchPc.tokens] using h.located.put (b := Phase.ready) hun rfl
    · refine h.submit hPend ?_ rfl nofun rfl
      simpa [State.tokens, hpc, OrchPc.tokens] using h.located.skip (b := Phase.waiting) hun nofun
  | push =>
    have hph := (h.token (t := slot) (a := .ready) (by simp [State.tokens, hpc, OrchPc.tokens])).1
    refine h.advance hph ?_ (fun _ _ => rfl) (h.allows_of hph fun _ => id) (by decide)
      (by rw [hpc]; rfl)
    have hTok : Located ((slot, .ready) :: (s.sched.tokens ++ queueTokens s.readyQueue ++
        s.completionQueue.map (·, .finished))) s.phase := by
      simpa [State.tokens, hpc, OrchPc.tokens] using h.located
    refine (hTok.move (b := Phase.queued) rfl).perm ?_
    have hq := queueTokens_push s.readyQueue (s.workerType slot) slot
    rw [perm_iff_count] at hq ⊢
    intro x
    have := hq x
    simp [State.pushReady, State.tokens, OrchPc.tokens, count_cons] at this ⊢
    omega
  | _ =>
    exact h.frame (by rw [hpc]; exact ⟨rfl, rfl⟩) rfl h.allows

/-- A step of `alloc`. -/
theorem life_allocStep {pc : AllocPc} (h : Life s) (hpc : s.orch = .alloc slot pc) :
    Life (s.allocStep slot pc) := by
  cases pc with
  | state =>
    have hPend : s.orch.pending? = some slot := by rw [hpc]; rfl
    have hun : ¬ (s.phase slot).held = true := by
      rw [(h.pending_lt hPend).2]
      nofun
    refine h.submit hPend ?_ (.inl rfl) nofun rfl
    simpa [State.tokens, hpc, OrchPc.tokens] using h.located.skip (b := Phase.allocated) hun nofun
  | _ => exact h.frame (by rw [hpc]; exact ⟨rfl, rfl⟩) rfl h.allows

/-- Consuming moves a COMPLETED slot to CONSUMED and leaves all others. -/
theorem consumeEffect_state (s : State) (slot : Nat) (holder : Holder) (pc : ConsumePc) :
    ∀ t, (s.consumeEffect slot holder pc).state t = s.state t ∨
      (t = slot ∧ pc = .cas ∧ s.state t = .completed ∧
        (s.consumeEffect slot holder pc).state t = .consumed) := by
  intro t
  cases pc with
  | cas =>
    simp only [State.consumeEffect]
    split_ifs with hc
    · by_cases ht : t = slot
      · subst ht; exact .inr ⟨rfl, trivial, hc, update_self ..⟩
      · exact .inl (update_of_ne ht ..)
    · exact .inl rfl
  | _ => exact .inl rfl

theorem Phase.Allows.consume {p : Phase} (h : p.Allows .completed) : p.Allows .consumed := by
  cases p <;> simp_all [Phase.Allows]

/-- A step of `try_consume` or `release_ref`, whichever thread is in it. -/
theorem Life.consume (h : Life s) (slot : Nat) (holder : Holder) (pc : ConsumePc)
    (hOrch : o.tokens = s.orch.tokens ∧ o.pending? = s.orch.pending?)
    (hSched : sc.tokens = s.sched.tokens) :
    Life { s.consumeEffect slot holder pc with orch := o, sched := sc } := by
  refine h.frame hOrch hSched fun t => ?_
  have ht := h.allows t
  rcases consumeEffect_state s slot holder pc t with he | ⟨-, -, hc, he⟩
  · exact he.symm ▸ ht
  · exact he.symm ▸ (hc ▸ ht).consume

/-- A step of the orchestrator. -/
theorem life_orchMove (h : Life s) (hs : s.OrchMove s') : Life s' := by
  cases hs with
  | attach hpc =>
    simp only [State.attachProducer]
    split <;> exact h.frame (by rw [hpc]; exact ⟨rfl, rfl⟩) rfl h.allows
  | submit hpc => exact life_submitStep h hpc
  | alloc hpc => exact life_allocStep h hpc
  | @release slot pc tasks hpc =>
    refine h.consume slot .scope pc ?_ rfl
    rw [hpc]
    cases s.consumeNext slot pc <;> exact ⟨rfl, rfl⟩
  | _ hpc =>
    exact h.frame (by rw [hpc]; exact ⟨rfl, rfl⟩) rfl h.allows

/-! ## The scheduler's and the workers' steps -/

/-- The tokens other than the scheduler's. -/
def State.otherTokens (s : State) : List (Nat × Phase) :=
  s.orch.tokens ++ queueTokens s.readyQueue ++ s.completionQueue.map (·, .finished)

theorem tokens_perm_sched (s : State) : s.tokens.Perm (s.sched.tokens ++ s.otherTokens) := by
  rw [perm_iff_count]
  intro x
  simp only [State.tokens, State.otherTokens, count_append]
  omega

/-- Only the scheduler's program counter and the labels changed. -/
theorem located_of_sched {phase : Nat → Phase} (h : Located (sc.tokens ++ s.otherTokens) phase) :
    Located (State.tokens { s with sched := sc }) phase :=
  h.perm (tokens_perm_sched { s with sched := sc }).symm

/-- A token of the scheduler's program counter. -/
theorem Life.schedToken (h : Life s) (ht : (t, a) ∈ s.sched.tokens) :
    s.phase t = a ∧ t < s.nextTaskId ∧ s.orch.pending? ≠ some t :=
  h.token (by simp [State.tokens, ht])

/-- The slot whose completion runs is COMPLETED and has not returned. -/
theorem Life.phase_completing (h : Life s) (ht : s.sched.completing? = some t) :
    s.phase t = .completed ∧ t < s.nextTaskId := by
  have hmem : (t, Phase.completed) ∈ s.sched.tokens := by
    cases hpc : s.sched <;> rw [hpc] at ht <;>
      simp_all [SchedPc.completing?, SchedPc.tokens]
  obtain ⟨hph, hlt, -⟩ := h.schedToken hmem
  exact ⟨hph, hlt⟩

/-- The slot at the head of the scheduler's tokens, and the other tokens. -/
theorem Life.schedHead (h : Life s) {ts : List (Nat × Phase)} (ht : s.sched.tokens = (t, a) :: ts) :
    s.phase t = a ∧ Located ((t, a) :: (ts ++ s.otherTokens)) s.phase := by
  have hTok := h.located.perm (tokens_perm_sched s)
  rw [ht] at hTok
  exact ⟨(h.schedToken (by rw [ht]; exact mem_cons_self)).1, hTok⟩

/-- The tokens after the slot of the scheduler has been pushed to a ready queue. -/
theorem located_of_push {phase : Nat → Phase} (w : WorkerType)
    (h : Located ((slot, .queued) :: (sc.tokens ++ s.otherTokens)) phase) :
    Located (State.tokens { s with
      sched := sc
      readyQueue := update s.readyQueue w (s.readyQueue w ++ [slot]) }) phase := by
  refine h.perm ?_
  have hq := queueTokens_push s.readyQueue w slot
  rw [perm_iff_count] at hq ⊢
  intro x
  have := hq x
  simp only [State.otherTokens, State.tokens, count_append, count_cons] at this ⊢
  omega

/-- A step of the scheduler. -/
theorem life_schedMove (h : Life s) (hs : s.SchedMove s') : Life s' := by
  cases hs with
  | @storeCompleted slot hpc =>
    obtain ⟨hph, hTok⟩ := h.schedHead (t := slot) (a := .completing) (by rw [hpc]; rfl)
    exact h.advance hph (located_of_sched (hTok.move (b := Phase.completed) rfl))
      (fun u hu => update_of_ne hu ..) (.inl (update_self ..)) (by decide) rfl
  | check hpc =>
    refine h.frame ⟨rfl, rfl⟩ ?_ h.allows
    rw [hpc]
    split <;> rfl
  | @casReady slot consumer consumers hpc hst =>
    -- only a waiting task is still PENDING
    have hph : s.phase consumer = .waiting := by
      have := h.allows consumer
      rw [hst] at this
      cases hp : s.phase consumer <;> simp_all [Phase.Allows]
    obtain ⟨-, hTok⟩ := h.schedHead (t := slot) (a := .completed) (by rw [hpc]; rfl)
    exact h.advance hph
      (located_of_sched (hTok.put (i := consumer) (b := Phase.ready) (by rw [hph]; nofun) rfl))
      (fun u hu => update_of_ne hu ..) (update_self ..) (by decide) rfl
  | @push slot consumer consumers hpc =>
    obtain ⟨hph, hTok⟩ := h.schedHead (t := consumer) (a := .ready) (by rw [hpc]; rfl)
    exact h.advance hph
      (located_of_push (s.workerType consumer) (hTok.move (b := Phase.queued) rfl))
      (fun _ _ => rfl) (h.allows_of hph fun _ => id) (by decide) rfl
  | @consumeSelf slot pc hpc =>
    refine h.consume slot .self pc ⟨rfl, rfl⟩ ?_
    rw [hpc]
    cases s.consumeNext slot pc <;> rfl
  | @returned slot hpc =>
    obtain ⟨hph, hTok⟩ := h.schedHead (t := slot) (a := .completed) (by rw [hpc]; rfl)
    exact h.advance hph (located_of_sched (hTok.drop (b := Phase.returned) nofun)) (fun _ _ => rfl)
      (h.allows_of hph fun _ => id) (by decide) rfl
  | @consumeProducer slot prod pc producers hpc =>
    refine h.consume prod (.consumer slot) pc ⟨rfl, rfl⟩ ?_
    rw [hpc]
    cases s.consumeNext prod pc <;> rfl
  | _ hpc =>
    exact h.frame ⟨rfl, rfl⟩ (by rw [hpc]; rfl) h.allows

/-- The allocator hands out the next slot. -/
theorem Life.reserveSlot (h : Life s) {workerType groupSize} (hNone : s.orch.pending? = none)
    (hTokens : o.tokens = s.orch.tokens) (hPending : o.pending? = some s.nextTaskId)
    (hGroup : ∀ t, t ≠ s.nextTaskId → groupSize t = s.groupSize t) :
    Life { s with
      nextTaskId := s.nextTaskId + 1, workerType := workerType, groupSize := groupSize
      orch := o } where
  located := by simpa only [State.tokens, hTokens] using h.located
  allows := h.allows
  fresh t ht := h.fresh t (Nat.le_of_succ_le ht)
  pending t ht := by
    have ht : t < s.nextTaskId + 1 := ht
    dsimp only
    rw [hPending]
    -- only the new slot is pending
    by_cases he : t = s.nextTaskId
    · exact iff_of_true (h.fresh t (by omega)) (by rw [he])
    · refine iff_of_false (fun hu => ?_) fun h => he (some.inj h).symm
      rw [h.pending t (by omega), hNone] at hu
      cases hu
  last t ht := congrArg (· + 1) (some.inj (hPending.symm.trans ht)).symm
  executing t ht := by
    obtain ⟨hph, hsum⟩ := h.executing t ht
    have hne : t ≠ s.nextTaskId := by
      rintro rfl
      rw [h.fresh _ (Nat.le_refl _)] at hph
      cases hph
    exact ⟨hph, hsum.trans (hGroup t hne).symm⟩
  beforeRun := h.beforeRun

/-- The idle scheduler takes a slot off a queue. -/
theorem Life.pop (h : Life s) {readyQueue completionQueue} (hpc : s.sched = .idle)
    (hsc : sc.tokens = [(slot, b)])
    (hPop : (queueTokens s.readyQueue ++ s.completionQueue.map (·, Phase.finished)).Perm
      ((slot, a) :: (queueTokens readyQueue ++ completionQueue.map (·, Phase.finished))))
    (hAllows : ∀ st, a.Allows st → b.Allows st) (hStep : a ≠ .unsubmitted ∧ a ≠ .executing ∧
      b ≠ .unsubmitted ∧ (b.beforeRun = true → a.beforeRun = true)) (hb : b.held = true) :
    Life { s with
      sched := sc, phase := update s.phase slot b
      readyQueue := readyQueue, completionQueue := completionQueue } := by
  -- the popped slot is in the scheduler's hands
  have hTok : Located ((slot, a) :: (s.orch.tokens ++ (queueTokens readyQueue ++
      completionQueue.map (·, .finished)))) s.phase := by
    refine h.located.perm ?_
    rw [perm_iff_count] at hPop ⊢
    intro x
    have := hPop x
    simp [State.tokens, hpc, SchedPc.tokens, count_cons] at this ⊢
    omega
  have hph := hTok.label_eq mem_cons_self
  refine h.advance hph ((hTok.move hb).perm ?_) (fun _ _ => rfl) (h.allows_of hph hAllows) hStep rfl
  rw [perm_iff_count]
  intro x
  simp [State.tokens, hsc, count_cons]
  omega

theorem life_workerDone (h : Life s) (hx : 0 < s.executing slot) :
    Life (s.workerDone slot) := by
  obtain ⟨hph, hsum⟩ := h.executing slot hx
  have hsub : s.phase slot ≠ .unsubmitted := by
    rw [hph]
    nofun
  simp only [State.workerDone]
  split
  · -- other members of the group still run
    have hSame : s.phase = update s.phase slot .executing := by
      rw [← hph, update_eq_self]
    rw [hSame]
    refine h.move (hSame ▸ h.located) (fun _ _ => rfl) (h.allows_of hph fun _ => id)
      (h.lt_of_phase hsub) nofun (fun _ _ => .rfl) (h.not_pending hsub)
      (fun u hu => update_of_ne hu ..) (fun u hu => update_of_ne hu ..)
      (fun _ => ⟨rfl, ?_⟩) nofun
    simp only [update_self]
    omega
  · refine h.move ?_ (fun _ _ => rfl) (h.allows_of hph fun _ => id) (h.lt_of_phase hsub) nofun
      (fun _ _ => .rfl) (h.not_pending hsub) (fun u hu => update_of_ne hu ..)
      (fun u hu => update_of_ne hu ..) (fun hpos => ?_) nofun
    · have := h.located.put (i := slot) (b := Phase.finished) (by rw [hph]; nofun) rfl
      refine this.perm ?_
      rw [perm_iff_count]
      intro x
      simp only [State.tokens, map_append, count_append, count_cons, map_cons,
        map_nil, count_nil]
      omega
    · -- the last member leaves no worker running
      simp only [update_self] at hpos
      omega

theorem life_move (h : Life s) (hs : Move s s') : Life s' := by
  cases hs with
  | alloc hpc => exact h.reserveSlot (by rw [hpc]; rfl) (by rw [hpc]; rfl) rfl fun _ _ => rfl
  | reserve hpc =>
    exact h.reserveSlot (by rw [hpc]; rfl) (by rw [hpc]; rfl) rfl
      fun _ ht => update_of_ne ht ..
  | popCompletion hpc hq =>
    exact h.pop (a := .finished) hpc rfl (by rw [hq]; exact perm_middle) (fun _ => id)
      (by decide) rfl
  | popReady hpc hq =>
    exact h.pop hpc rfl ((queueTokens_pop hq).append_right _) (fun _ => id) (by decide) rfl
  | @dispatch queue slot hpc =>
    obtain ⟨hph, hTok⟩ := h.schedHead (t := slot) (a := .dispatching) (by rw [hpc]; rfl)
    have hsub : s.phase slot ≠ .unsubmitted := by
      rw [hph]
      nofun
    refine h.move (located_of_sched (hTok.drop (b := Phase.executing) nofun))
      (fun u hu => update_of_ne hu ..) (update_self ..) (h.lt_of_phase hsub) nofun
      (fun _ _ => .rfl) (h.not_pending hsub) (fun u hu => update_of_ne hu ..)
      (fun _ _ => rfl) (fun _ => ⟨rfl, ?_⟩) nofun
    rw [h.beforeRun slot (by rw [hph]; rfl), update_self, Nat.zero_add]
  | @noWorker queue slot hpc =>
    obtain ⟨hph, hTok⟩ := h.schedHead (t := slot) (a := .dispatching) (by rw [hpc]; rfl)
    exact h.advance hph (located_of_push queue (hTok.move (b := Phase.queued) rfl)) (fun _ _ => rfl)
      (h.allows_of hph fun _ => id) (by decide) rfl
  | workerDone hx => exact life_workerDone h hx
  | _ hpc =>
    exact h.frame (by rw [hpc]; exact ⟨rfl, rfl⟩) rfl h.allows

/-- **Every step keeps the life of slots in order.** -/
theorem life_step {a : Act} (h : Life s) (hs : step s a = some s') : Life s' := by
  rcases step_cases hs with ⟨-, hm⟩ | ⟨-, hm⟩ | ⟨-, -, hm⟩
  · exact life_orchMove h hm
  · exact life_schedMove h hm
  · exact life_move h hm

/-- Phases are in order in every run. -/
theorem Life.reach {ok : State → Act → Prop} (h : Reach step ok State.init s) :
    Life s :=
  h.invariant life_init fun _ _ _ _ hl _ hs => life_step hl hs

/-! ## Completion is final -/

/-- COMPLETED or CONSUMED. -/
def Done (s : State) (t : Nat) : Prop := s.state t = .completed ∨ s.state t = .consumed

instance (s : State) (t : Nat) : Decidable (Done s t) := inferInstanceAs (Decidable (_ ∨ _))

theorem Done.congr (h : Done s t) (hst : s'.state t = s.state t) :
    Done s' t := by
  rw [Done, hst]
  exact h

/-- Completed tasks, by phase. -/
theorem Life.done_iff (h : Life s) (t : Nat) :
    Done s t ↔ s.phase t = .completed ∨ s.phase t = .returned ∨ s.phase t = .allocated := by
  have ha := h.allows t
  unfold Done
  cases hp : s.phase t <;> rw [hp] at ha <;> simp only [Phase.Allows] at ha <;> simp [ha]

/-- A slot of another phase is not done, so a store to it hurts no done slot. -/
theorem Life.ne_of_done (h : Life s) {u : Nat} (ht : Done s t) (hu : s.phase u = a)
    (ha : a ≠ .completed ∧ a ≠ .returned ∧ a ≠ .allocated) : t ≠ u := by
  rintro rfl
  rw [h.done_iff, hu] at ht
  exact ht.elim ha.1 fun h => h.elim ha.2.1 ha.2.2

theorem Done.consumeEffect (h : Done s t) (slot : Nat) (holder : Holder) (pc : ConsumePc) :
    Done (s.consumeEffect slot holder pc) t := by
  rcases consumeEffect_state s slot holder pc t with he | ⟨-, -, -, he⟩
  · exact h.congr he
  · exact .inr he

theorem done_orchMove (hL : Life s) (h : Done s t) (hs : s.OrchMove s') : Done s' t := by
  cases hs with
  | attach => simp only [State.attachProducer]; split <;> exact h
  | @submit slot n pc hpc | @alloc slot pc hpc =>
    cases pc with
    | state =>
      have hne := hL.ne_of_done h (hL.pending_lt (by rw [hpc]; rfl)).2 (by simp)
      exact h.congr (update_of_ne hne ..)
    | _ => exact h
  | @release slot pc tasks hpc => exact h.consumeEffect slot .scope pc
  | _ => exact h

theorem done_schedMove (h : Done s t) (hs : s.SchedMove s') :
    Done s' t := by
  cases hs with
  | @storeCompleted slot hpc =>
    by_cases ht : t = slot
    · subst ht; exact .inl (update_self ..)
    · exact h.congr (update_of_ne ht ..)
  | @casReady slot consumer consumers hpc hst =>
    have hne : t ≠ consumer := by
      rintro rfl
      rcases h with h | h <;> rw [hst] at h <;> cases h
    exact h.congr (update_of_ne hne ..)
  | @consumeSelf slot pc hpc => exact h.consumeEffect slot .self pc
  | @consumeProducer slot prod pc producers hpc => exact h.consumeEffect prod (.consumer slot) pc
  | _ => exact h

theorem done_move (hL : Life s) (h : Done s t) (hs : Move s s') :
    Done s' t := by
  cases hs with
  | @dispatch queue slot hpc =>
    obtain ⟨hph, -, -⟩ := hL.schedToken (t := slot) (a := .dispatching)
      (by rw [hpc]; exact mem_singleton.mpr rfl)
    exact h.congr (update_of_ne (hL.ne_of_done h hph (by simp)) ..)
  | _ => exact h

/-- **A slot that is COMPLETED or CONSUMED stays so.** -/
theorem done_step {a : Act} (hL : Life s) (h : Done s t) (hs : step s a = some s') : Done s' t := by
  rcases step_cases hs with ⟨-, hm⟩ | ⟨-, hm⟩ | ⟨-, -, hm⟩
  · exact done_orchMove hL h hm
  · exact done_schedMove h hm
  · exact done_move hL h hm

end PtoRuntime.Hier
