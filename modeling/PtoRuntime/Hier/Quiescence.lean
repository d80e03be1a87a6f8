import PtoRuntime.Hier.Drain

/-!
# Hierarchical runtime — who is still around when the slots are dropped

`drain` waits for `active_tasks_` to become zero and then drops all slots. The counter is lowered
inside of `try_consume`, with the rest of `on_task_complete` still to come: after the slot's own
release the scheduler reads the slot's producers, and after the release of one producer it turns
to the next. A worker that was not the last of its group reads the group's size after the
`fetch_add` that lets the others go on. Nobody waits for either.

Main results: `drain_quiescent`, `dropped_while_completing`.
-/

namespace PtoRuntime.Hier

open Lib Function List Option

/-! ## The threads -/

def ConsumePc.lowers : ConsumePc → Bool
  | .decActive => true
  | _ => false

/-- The next step takes one off `active_tasks_`. -/
def OrchPc.lowers : OrchPc → Bool
  | .release _ pc _ => pc.lowers
  | _ => false

def SchedPc.lowers : SchedPc → Bool
  | .consumeSelf _ pc | .consumeProducer _ _ pc _ => pc.lowers
  | _ => false

variable {s s' b : State} {ok : State → Act → Prop} {p : Nat} {a : Act} {pc : WorkerPc}

theorem orch_active (hs : s.OrchMove s') :
    s.activeTasks ≤ s'.activeTasks ∨ s.orch.lowers = true ∧ s'.activeTasks = s.activeTasks - 1 := by
  cases hs with
  | attach =>
    unfold State.attachProducer
    split <;> exact .inl (Int.le_refl _)
  | @submit slot n pc => cases pc <;> exact .inl (Int.le_refl _)
  | @alloc slot pc =>
    cases pc with
    | active => exact .inl (by simp only [State.allocStep]; omega)
    | _ => exact .inl (Int.le_refl _)
  | @release slot pc tasks hpc =>
    cases pc with
    | decActive => exact .inr ⟨by rw [hpc]; rfl, rfl⟩
    | _ => exact .inl (Int.le_refl _)
  | _ => exact .inl (Int.le_refl _)

/-- The scheduler leaves a position without accesses for another such one. -/
theorem sched_active (hs : s.SchedMove s') :
    (s'.activeTasks = s.activeTasks ∨
      s.sched.lowers = true ∧ s'.activeTasks = s.activeTasks - 1) ∧
    (s.sched.accessAhead = false → s'.sched.accessAhead = false) := by
  cases hs with
  | @consumeSelf slot pc hpc =>
    rw [hpc]
    refine ⟨?_, nofun⟩
    cases pc with
    | decActive => exact .inr ⟨rfl, rfl⟩
    | _ => exact .inl rfl
  | @consumeProducer slot prod pc producers hpc =>
    rw [hpc]
    cases pc with
    | decActive =>
      refine ⟨.inr ⟨rfl, rfl⟩, fun hq => ?_⟩
      cases producers with
      | nil => rfl
      | cons => cases hq
    | _ => exact ⟨.inl rfl, nofun⟩
  | returned => exact ⟨.inl rfl, fun _ => rfl⟩
  | @deferred slot prod producers hpc =>
    rw [hpc]
    exact ⟨.inl rfl, nofun⟩
  | _ hpc =>
    rw [hpc]
    exact ⟨.inl rfl, nofun⟩

/-- A slot on its way to COMPLETED keeps the counter above zero. -/
theorem active_pos_of_phase (h : Reach step ok State.init s) (hun : s.phase p ≠ .unsubmitted)
    (hnot : ¬ Done s p) : 0 < s.activeTasks := by
  have hL := Life.reach h
  refine active_pos h (mem_unconsumed.mpr ⟨hL.lt_of_phase hun, fun hc => hnot (.inr hc)⟩)
    fun pc hpc => ?_
  by_cases hact : pc = .active
  · subst hact
    exact (Refs.reach h).selfAhead p (.inl hnot) ((AllocOk.reach h).self p hpc)
  · exact hun (hL.pending_lt (t := p)
      (by rw [hpc]; cases pc <;> first | rfl | contradiction)).2

/-- A task under way is counted. -/
theorem active_pos_of_token (h : Reach step ok State.init s) {a : Phase} (hmem : (p, a) ∈ s.tokens)
    (ha : a ≠ .completed) : 0 < s.activeTasks := by
  have hL := Life.reach h
  obtain ⟨hph, -, -⟩ := hL.token hmem
  have hheld := hL.located.held_of_mem hmem
  refine active_pos_of_phase h (p := p) ?_ ?_
  · rw [hph]
    rintro rfl
    cases hheld
  · rw [hL.done_iff, hph]
    rintro (rfl | rfl | rfl)
    · exact ha rfl
    · cases hheld
    · cases hheld

/-- A running task is counted. -/
theorem active_pos_of_executing (h : Reach step ok State.init s) (hp : 0 < s.executing p) :
    0 < s.activeTasks := by
  have hL := Life.reach h
  have hph := (hL.executing p hp).1
  refine active_pos_of_phase h (p := p) (by rw [hph]; simp) ?_
  rw [hL.done_iff, hph]
  simp

/-- The other threads have something to do only while the counter is above zero. -/
theorem active_pos_of_foreign (h : Reach step ok State.init s) (ha : a.foreign = true)
    (hs : step s a = some s') :
    0 < s.activeTasks := by
  cases a with
  | popCompletion =>
    simp only [step] at hs
    split at hs <;> cases hs
    rename_i slot rest hpc hq
    exact active_pos_of_token h (p := slot) (a := .finished) (by simp [State.tokens, hq]) (by simp)
  | popReady queue =>
    simp only [step] at hs
    split at hs <;> cases hs
    rename_i slot rest hpc hq
    refine active_pos_of_token h (p := slot) (a := .queued) ?_ (by simp)
    cases queue <;> simp [State.tokens, queueTokens, hq]
  | dispatch | noWorker =>
    simp only [step] at hs
    split at hs <;> cases hs
    rename_i queue slot hpc
    exact active_pos_of_token h (p := slot) (a := .dispatching)
      (by simp [State.tokens, hpc, SchedPc.tokens]) (by simp)
  | workerDone slot =>
    obtain ⟨hpos, -⟩ := ite_none_right_eq_some.mp hs
    exact active_pos_of_executing h hpos
  | _ => cases ha

/-- The orchestrator's steps other than its return from a refused `Ring::alloc`. -/
theorem call_frame (ha : a.foreign = false) (hsched : a ≠ .sched) (hshut : a ≠ .shutdown)
    (h : step s a = some s') :
    s'.sched = s.sched ∧ (s.activeTasks ≤ s'.activeTasks ∨
      a = .orch ∧ s.orch.lowers = true ∧ s'.activeTasks = s.activeTasks - 1) := by
  cases a with
  | orch =>
    have hm := State.orchStep_cases h
    refine ⟨?_, (orch_active hm).imp_right fun hl => ⟨rfl, hl⟩⟩
    cases hm with
    | attach =>
      unfold State.attachProducer
      split <;> rfl
    | @submit slot n pc => cases pc <;> rfl
    | @alloc slot pc => cases pc <;> rfl
    | _ => rfl
  | sched => exact absurd rfl hsched
  | shutdown => exact absurd rfl hshut
  | submit =>
    obtain ⟨-, heq⟩ := ite_none_right_eq_some.mp h
    cases heq
    exact ⟨rfl, .inl (by simp only; omega)⟩
  | alloc | scopeBegin | scopeEnd | reserve =>
    simp only [step] at h
    split at h <;> cases h
    exact ⟨rfl, .inl (Int.le_refl _)⟩
  | _ => cases ha

/-- What the workers' bookkeeping rests on: members are taken up together and put down one by
one. -/
theorem executing_frame (hL : Life s) (h : step s a = some s') (ha : ∀ slot, a ≠ .workerDone slot) :
    s.nextTaskId ≤ s'.nextTaskId ∧ (∀ p < s.nextTaskId, s'.groupSize p = s.groupSize p) ∧
      ∀ p, s.executing p ≤ s'.executing p := by
  cases a with
  | workerDone slot => exact absurd rfl (ha slot)
  | orch =>
    cases State.orchStep_cases h with
    | attach =>
      unfold State.attachProducer
      split <;> exact ⟨le_rfl, fun _ _ => rfl, fun _ => le_rfl⟩
    | @submit slot n pc => cases pc <;> exact ⟨le_rfl, fun _ _ => rfl, fun _ => le_rfl⟩
    | @alloc slot pc => cases pc <;> exact ⟨le_rfl, fun _ _ => rfl, fun _ => le_rfl⟩
    | _ => exact ⟨le_rfl, fun _ _ => rfl, fun _ => le_rfl⟩
  | sched =>
    cases State.schedStep_cases h <;>
      exact ⟨le_rfl, fun _ _ => rfl, fun _ => le_rfl⟩
  | reserve =>
    simp only [step] at h
    split at h <;> cases h
    refine ⟨Nat.le_succ _, fun p hp => ?_, fun _ => le_rfl⟩
    exact update_of_ne (by omega) ..
  | alloc =>
    simp only [step] at h
    split at h <;> cases h
    exact ⟨Nat.le_succ _, fun _ _ => rfl, fun _ => le_rfl⟩
  | dispatch =>
    simp only [step] at h
    split at h <;> cases h
    rename_i queue slot hpc
    refine ⟨le_rfl, fun _ _ => rfl, fun p => ?_⟩
    have hph := (hL.schedToken (t := slot) (a := .dispatching)
      (by rw [hpc]; exact mem_singleton.mpr rfl)).1
    have hnot := hL.not_executing (t := slot) (by rw [hph]; simp)
    simp only [update_apply]
    split_ifs with hp
    · rw [hp]
      omega
    · exact le_rfl
  | _ =>
    simp only [step] at h
    split at h <;> cases h
    exact ⟨le_rfl, fun _ _ => rfl, fun _ => le_rfl⟩

theorem workerDone_frame {slot : Nat} (h : step s (.workerDone slot) = some s') :
    s'.nextTaskId = s.nextTaskId ∧ s'.groupSize = s.groupSize ∧ s'.activeTasks = s.activeTasks ∧
      s'.sched = s.sched ∧
      s'.executing = update s.executing slot (s.executing slot - 1) := by
  obtain ⟨-, heq⟩ := ite_none_right_eq_some.mp h
  cases heq
  exact ⟨rfl, rfl, rfl, rfl, rfl⟩

/-! ## The workers -/

namespace Sys

variable {c : HeapConfig} {s s' : Sys}

/-- A thread in `worker_done` moves on or leaves. -/
theorem countP_replace {workers l : List WorkerPc} (f : WorkerPc → Bool) (hpc : pc ∈ workers) :
    (workers.erase pc ++ l).countP f + (if f pc then 1 else 0) =
      workers.countP f + l.countP f := by
  have hperm := (perm_cons_erase hpc).countP_eq f
  rw [countP_cons] at hperm
  rw [countP_append]
  omega

structure Members (s : Sys) : Prop where
  known : ∀ w ∈ s.workers, w.slot < s.base.nextTaskId
  held : ∀ p, s.holding p ≤ s.base.executing p

theorem Members.init : Members Sys.init where
  known _ h := absurd h not_mem_nil
  held _ := le_rfl

theorem holding_congr {workers : List WorkerPc} {b' : State} (p : Nat)
    (h : ∀ w ∈ workers, b'.groupSize w.slot = b.groupSize w.slot) :
    workers.countP (WorkerPc.holds b' p) = workers.countP (WorkerPc.holds b p) := by
  refine countP_congr fun w hw => ?_
  have := h w hw
  cases w with
  | groupSize slot done =>
    simp only [WorkerPc.slot] at this
    simp only [WorkerPc.holds, this]
  | _ => rfl

/-- Steps that concern no worker. -/
theorem Members.lift (h : Members s) (hL : Life s.base) (hb : Hier.step s.base a = some b)
    (ha : ∀ slot, a ≠ .workerDone slot) (hbase : s'.base = b) (hworkers : s'.workers = s.workers) :
    Members s' := by
  obtain ⟨hNext, hGroup, hExec⟩ := executing_frame hL hb ha
  subst hbase
  refine ⟨fun w hw => ?_, fun p => ?_⟩
  · rw [hworkers] at hw
    exact lt_of_lt_of_le (h.known w hw) hNext
  · unfold Sys.holding
    rw [hworkers, holding_congr p fun w hw => hGroup _ (h.known w hw)]
    exact le_trans (h.held p) (hExec p)

/-- A worker that holds its member keeps it running. -/
theorem Members.executing_pos (h : Members s) (hpc : pc ∈ s.workers)
    (hh : pc.holds s.base pc.slot = true) : 0 < s.base.executing pc.slot :=
  lt_of_lt_of_le (countP_pos_iff.mpr ⟨pc, hpc, hh⟩) (h.held pc.slot)

/-- A thread in `worker_done` moves on to `l`. -/
theorem Members.turn {l : List WorkerPc} (h : Members s) (hpc : pc ∈ s.workers)
    (hNext : b.nextTaskId = s.base.nextTaskId) (hGroup : b.groupSize = s.base.groupSize)
    (hl : ∀ w ∈ l, w.slot = pc.slot)
    (hExec : ∀ p, s.base.executing p + l.countP (WorkerPc.holds s.base p) ≤
      b.executing p + (if pc.holds s.base p then 1 else 0)) :
    Members { s with base := b, workers := s.workers.erase pc ++ l } := by
  refine ⟨fun w hw => ?_, fun p => ?_⟩
  · show w.slot < b.nextTaskId
    rw [hNext]
    rcases mem_append.mp hw with hw | hw
    · exact h.known w (mem_of_mem_erase hw)
    · rw [hl w hw]
      exact h.known pc hpc
  · show (s.workers.erase pc ++ l).countP (WorkerPc.holds b p) ≤ b.executing p
    rw [holding_congr p fun w _ => congrFun hGroup w.slot]
    have hcount := countP_replace (WorkerPc.holds s.base p) (l := l) hpc
    have hheld : s.workers.countP (WorkerPc.holds s.base p) ≤ s.base.executing p := h.held p
    have := hExec p
    omega

theorem countP_singleton_of_eq {f : WorkerPc → Bool} {w : WorkerPc} (pc : WorkerPc)
    (h : f w = f pc) :
    [w].countP f = if f pc then 1 else 0 := by
  rw [countP_singleton, h]

/-- A member is put down. -/
theorem executing_update {slot : Nat} {f : Nat → Nat} (hpc : pc.holds b p = decide (slot = p)) :
    f p + 0 ≤ update f slot (f slot - 1) p + (if pc.holds b p then 1 else 0) := by
  rw [hpc, update_apply]
  by_cases hp : p = slot
  · subst hp
    simp only [if_true, decide_true]
    omega
  · rw [if_neg hp]
    omega

/-- A step of a worker. -/
theorem Members.workerStep (h : Members s) (hpc : pc ∈ s.workers)
    (hst : s.workerStep pc = some s') : Members s' := by
  cases pc with
  | isGroup slot =>
    cases hst
    refine h.turn hpc rfl rfl (fun w hw => ?_) fun p => ?_
    · rw [mem_singleton.mp hw]
      split <;> rfl
    · rw [countP_singleton_of_eq (.isGroup slot) (by split <;> rfl)]
  | groupSize slot done =>
    cases hst
    by_cases hlt : done < s.base.groupSize slot
    · rw [if_pos hlt]
      exact h.turn hpc rfl rfl nofun fun p => Nat.le_add_right ..
    · rw [if_neg hlt]
      refine h.turn hpc rfl rfl (fun w hw => by rw [mem_singleton.mp hw]; rfl) fun p => ?_
      rw [countP_singleton_of_eq (.groupSize slot done)]
      simp only [WorkerPc.holds, not_lt.mp hlt, and_true]
  | fetchAdd slot =>
    simp only [Sys.workerStep] at hst
    have hslot (w : WorkerPc) (hw : w ∈ [.groupSize slot (s.base.subCompleteCount slot + 1)]) :
        w.slot = slot := by
      rw [mem_singleton.mp hw]
      rfl
    split at hst
    · -- not the last one: the member is put down here
      rename_i hlt
      obtain ⟨b, hb, rfl⟩ := map_eq_some_iff.mp hst
      obtain ⟨hNext, hGroup, -, -, hExec⟩ := workerDone_frame hb
      refine h.turn hpc hNext hGroup hslot fun p => ?_
      have hno : WorkerPc.holds s.base p (.groupSize slot (s.base.subCompleteCount slot + 1)) =
          false := by
        simp only [WorkerPc.holds, decide_eq_false_iff_not]
        omega
      rw [countP_singleton, hno, hExec]
      exact executing_update rfl
    · rename_i hge
      cases hst
      refine h.turn hpc rfl rfl hslot fun p => ?_
      rw [countP_singleton_of_eq (.fetchAdd slot)]
      simp only [WorkerPc.holds, not_lt.mp hge, and_true]
  | push slot =>
    obtain ⟨b, hb, rfl⟩ := map_eq_some_iff.mp hst
    obtain ⟨hNext, hGroup, -, -, hExec⟩ := workerDone_frame hb
    have := h.turn hpc hNext hGroup (l := []) nofun fun p => by
      rw [hExec]
      exact executing_update rfl
    rwa [append_nil] at this

/-! ## The counter at zero -/

/-- The step takes one off `active_tasks_`. -/
def lowers (c : HeapConfig) (s : Sys) : SysAct → Bool
  | .orch => s.base.orch.lowers
  | .sched => s.base.sched.lowers
  | .reserve =>
    match s.reply c with
    | some (.shutdown, _) => true
    | _ => false
  | _ => false

/-- Whoever takes the last one off `active_tasks_` leaves nobody behind with an access ahead. -/
def QuietZero (c : HeapConfig) (s : Sys) (a : SysAct) : Prop :=
  s.lowers c a = true → s.activeTasks = 1 → s.Quiet

instance (c : HeapConfig) : DecidableRel (QuietZero c) := fun _ _ =>
  inferInstanceAs (Decidable (_ → _ → _))

structure Calm (c : HeapConfig) (s : Sys) : Prop where
  ok : Ok c s
  members : Members s
  quiet : s.activeTasks = 0 → s.Quiet

theorem Calm.init : Calm c Sys.init where
  ok := .init
  members := .init
  quiet _ := ⟨rfl, nofun⟩

theorem Quiet.congr (h : s.Quiet) (hSched : s'.base.sched = s.base.sched)
    (hWorkers : s'.workers = s.workers) : s'.Quiet := by
  unfold Quiet
  rw [hSched, hWorkers]
  exact h

theorem Ok.active_pos (h : Ok c s) (hpos : 0 < s.base.activeTasks) : s.activeTasks ≠ 0 :=
  fun hZero => by
    have := (h.base_zero hZero).1
    omega

theorem Ok.active_nonneg (h : Ok c s) : 0 ≤ s.activeTasks := by
  have := Hier.active_nonneg h.base
  unfold Sys.activeTasks
  omega

/-- A step of the orchestrator's thread. -/
theorem Calm.call (h : Calm c s) (hb : Hier.step s.base a = some b) (ha : a.foreign = false)
    (hsched : a ≠ .sched) (hshut : a ≠ .shutdown)
    (hg : a = .orch → s.base.orch.lowers = true → s.activeTasks = 1 → s.Quiet) (hbase : s'.base = b)
    (hleaked : s'.leaked = s.leaked) (hworkers : s'.workers = s.workers) :
    Members s' ∧ (s'.activeTasks = 0 → s'.Quiet) := by
  have hdone : ∀ slot, a ≠ .workerDone slot := by
    rintro slot rfl
    cases ha
  refine ⟨h.members.lift (Life.reach h.ok.base) hb hdone hbase hworkers, fun hZero => ?_⟩
  subst hbase
  obtain ⟨hSched, hActive⟩ := call_frame ha hsched hshut hb
  have hnonneg := h.ok.active_nonneg
  have hq : s.Quiet := by
    unfold Sys.activeTasks at hZero
    rcases hActive with hle | ⟨ho, hl, hdec⟩
    · refine h.quiet ?_
      unfold Sys.activeTasks at hnonneg ⊢
      omega
    · refine hg ho hl ?_
      unfold Sys.activeTasks
      omega
  exact hq.congr hSched hworkers

/-- A step of another thread outside of a job: the counter was and stays above zero. -/
theorem Calm.foreign (h : Calm c s) (hb : Hier.step s.base a = some b) (ha : a.foreign = true)
    (hbase : s'.base = b) (hleaked : s'.leaked = s.leaked) :
    s'.activeTasks = 0 → s'.Quiet := by
  intro hZero
  have hsame : s'.activeTasks = s.activeTasks := by
    unfold Sys.activeTasks
    rw [hbase, hleaked, (foreign_frame ha hb).2.1]
  rw [hsame] at hZero
  exact absurd hZero (h.ok.active_pos (active_pos_of_foreign h.ok.base ha hb))

/-- A submission is refused: by the exception, which keeps the counter, or without one. -/
theorem Calm.shutdown (h : Calm c s) (hb : Hier.step s.base .shutdown = some b)
    (hg : s'.activeTasks = 0 → s.Quiet) (hbase : s'.base = b) (hworkers : s'.workers = s.workers) :
    Members s' ∧ (s'.activeTasks = 0 → s'.Quiet) := by
  refine ⟨h.members.lift (Life.reach h.ok.base) hb nofun hbase hworkers, fun hZero => ?_⟩
  refine (hg hZero).congr ?_ hworkers
  rw [hbase]
  simp only [Hier.step] at hb
  split at hb <;> cases hb
  rfl

theorem shutdown_active {b' : State} (hb : Hier.step b .shutdown = some b') :
    b'.activeTasks = b.activeTasks - 1 := by
  simp only [Hier.step] at hb
  split at hb <;> cases hb
  rfl

/-- An exception leaves the scheduler alone. -/
theorem Calm.throw (h : Calm c s) (hst : s.throw = some s') :
    Members s' ∧ (s'.activeTasks = 0 → s'.Quiet) := by
  obtain ⟨b, hb, rfl⟩ := map_eq_some_iff.mp hst
  refine h.shutdown hb (fun hZero => h.quiet ?_) rfl rfl
  have := shutdown_active hb
  unfold Sys.activeTasks at hZero ⊢
  simp only at hZero
  omega

/-- A reservation raises the count first. -/
theorem Calm.reserve (h : Calm c s) (hg : QuietZero c s .reserve)
    (hst : s.step c .reserve = some s') : Members s' ∧ (s'.activeTasks = 0 → s'.Quiet) := by
  simp only [Sys.step] at hst
  split at hst
  · obtain ⟨b, hb, rfl⟩ := map_eq_some_iff.mp hst
    exact h.call hb rfl (by simp) (by simp) (by simp) rfl rfl rfl
  · rename_i hx
    obtain ⟨b, hb, rfl⟩ := map_eq_some_iff.mp hst
    refine h.shutdown hb (fun hZero => hg ?_ ?_) rfl rfl
    · simp only [Sys.lowers, hx]
    · have := shutdown_active hb
      unfold Sys.activeTasks at hZero ⊢
      simp only at hZero
      omega
  · exact h.throw hst
  · cases hst
  · cases hst

/-- A step of the scheduler. -/
theorem Calm.sched (h : Calm c s) (hg : QuietZero c s .sched)
    (hst : s.step c .sched = some s') : Members s' ∧ (s'.activeTasks = 0 → s'.Quiet) := by
  obtain ⟨b, hb, rfl⟩ := map_eq_some_iff.mp hst
  refine ⟨h.members.lift (Life.reach h.ok.base) hb nofun rfl rfl, fun hZero => ?_⟩
  obtain ⟨hActive, hStays⟩ := sched_active (State.schedStep_cases hb)
  have hq : s.Quiet := by
    unfold Sys.activeTasks at hZero
    simp only at hZero
    rcases hActive with hsame | ⟨hl, hdec⟩
    · refine h.quiet ?_
      unfold Sys.activeTasks
      omega
    · refine hg hl ?_
      unfold Sys.activeTasks
      omega
  exact ⟨hStays hq.1, hq.2⟩

/-- A step of a worker. -/
theorem Calm.worker (h : Calm c s) (hpc : pc ∈ s.workers) (hst : s.workerStep pc = some s') :
    s'.activeTasks = 0 → s'.Quiet := by
  -- who holds a member keeps the counter up
  have hholds (hh : pc.holds s.base pc.slot = true) : s.activeTasks ≠ 0 :=
    h.ok.active_pos (active_pos_of_executing h.ok.base (h.members.executing_pos hpc hh))
  cases pc with
  | isGroup slot =>
    cases hst
    exact fun hZero => absurd hZero (hholds (by simp [WorkerPc.holds, WorkerPc.slot]))
  | fetchAdd slot =>
    simp only [Sys.workerStep] at hst
    split at hst
    · obtain ⟨b, hb, rfl⟩ := map_eq_some_iff.mp hst
      exact h.foreign hb rfl rfl rfl
    · cases hst
      exact fun hZero => absurd hZero (hholds (by simp [WorkerPc.holds, WorkerPc.slot]))
  | groupSize slot done =>
    -- it has the access ahead that a counter at zero rules out
    cases hst
    intro hZero
    cases (h.quiet hZero).2 _ hpc
  | push slot =>
    obtain ⟨b, hb, rfl⟩ := map_eq_some_iff.mp hst
    exact h.foreign hb rfl rfl rfl

/-- Without accesses ahead and with the counter at zero no worker is left in `worker_done`. -/
theorem Calm.no_workers (h : Calm c s) (hZero : s.activeTasks = 0) : s.workers = [] := by
  rw [eq_nil_iff_forall_not_mem]
  intro pc hpc
  have hno := (h.quiet hZero).2 pc hpc
  cases pc with
  | push slot =>
    exact h.ok.active_pos (active_pos_of_executing h.ok.base
      (h.members.executing_pos hpc (by simp [WorkerPc.holds, WorkerPc.slot]))) hZero
  | isGroup | fetchAdd | groupSize => cases hno

/-- A drain that resets finds nothing. -/
theorem Calm.reset (h : Calm c s) (hd : s.drain = .resetting) (hst : s.step c .reset = some s') :
    s'.base = { State.init with scopes := replicate s.base.scopes.length [] } ∧
      s'.workers = [] := by
  have hZero := h.ok.zero hd
  have hne : s.drain ≠ .idle := by rw [hd]; nofun
  obtain ⟨-, hst⟩ := ite_none_right_eq_some.mp hst
  obtain ⟨ring, -, rfl⟩ := map_eq_some_iff.mp hst
  exact ⟨dropSlots_eq (h.ok.nothingLeft hne hZero) (h.ok.calls hne) (h.ok.base_zero hZero).1
    (h.quiet hZero).1, h.no_workers hZero⟩

/-- One step, if the count does not go early to zero. -/
theorem Calm.step {a : SysAct} (h : Calm c s) (hg : QuietZero c s a)
    (hst : s.step c a = some s') : Calm c s' := by
  have hok : Ok c s' := h.ok.step (fun ha => by
    subst ha
    obtain ⟨hd, -⟩ := ite_none_right_eq_some.mp hst
    exact h.quiet (h.ok.zero hd)) hst
  suffices hs : Members s' ∧ (s'.activeTasks = 0 → s'.Quiet) from ⟨hok, hs.1, hs.2⟩
  cases a with
  | submit | scopeBegin | scopeEnd =>
    obtain ⟨-, hst⟩ := ite_none_right_eq_some.mp hst
    obtain ⟨b, hb, rfl⟩ := map_eq_some_iff.mp hst
    exact h.call hb rfl (by simp) (by simp) (by simp) rfl rfl rfl
  | alloc =>
    simp only [Sys.step] at hst
    obtain ⟨-, hst⟩ := ite_none_right_eq_some.mp hst
    split at hst
    · obtain ⟨b, hb, rfl⟩ := map_eq_some_iff.mp hst
      exact h.call hb rfl (by simp) (by simp) (by simp) rfl rfl rfl
    · cases hst
      exact ⟨h.members, h.quiet⟩
  | reserve => exact h.reserve hg hst
  | timeout =>
    simp only [Sys.step] at hst
    split at hst
    · exact h.throw hst
    · cases hst
  | orch =>
    obtain ⟨b, hb, rfl⟩ := map_eq_some_iff.mp hst
    exact h.call hb rfl (by simp) (by simp) (fun _ => hg) rfl rfl rfl
  | sched => exact h.sched hg hst
  | reset =>
    obtain ⟨hd, -⟩ := ite_none_right_eq_some.mp hst
    obtain ⟨hbase, hworkers⟩ := h.reset hd hst
    refine ⟨⟨fun w hw => ?_, fun p => ?_⟩, fun _ => ⟨?_, fun w hw => ?_⟩⟩
    · rw [hworkers] at hw
      cases hw
    · unfold Sys.holding
      rw [hworkers]
      exact Nat.zero_le _
    · rw [hbase]
      rfl
    · rw [hworkers] at hw
      cases hw
  | drain | observeZero =>
    obtain ⟨-, heq⟩ := ite_none_right_eq_some.mp hst
    cases heq
    exact ⟨⟨h.members.known, h.members.held⟩, h.quiet⟩
  | popCompletion | popReady | dispatch | noWorker =>
    obtain ⟨b, hb, rfl⟩ := map_eq_some_iff.mp hst
    exact ⟨h.members.lift (Life.reach h.ok.base) hb (by simp) rfl rfl, h.foreign hb rfl rfl rfl⟩
  | finish slot =>
    obtain ⟨hlt, heq⟩ := ite_none_right_eq_some.mp hst
    cases heq
    have hpos : 0 < s.base.executing slot := by omega
    refine ⟨⟨fun w hw => ?_, fun p => ?_⟩, fun hZero => ?_⟩
    · rcases mem_append.mp hw with hw | hw
      · exact h.members.known w hw
      · have hL := Life.reach h.ok.base
        rw [mem_singleton.mp hw]
        exact hL.lt_of_phase (t := slot) (by rw [(hL.executing slot hpos).1]; simp)
    · show (s.workers ++ [WorkerPc.isGroup slot]).countP (WorkerPc.holds s.base p) ≤
          s.base.executing p
      have hheld := h.members.held p
      unfold Sys.holding at hheld hlt
      rw [countP_append, countP_singleton]
      by_cases hp : slot = p
      · subst hp
        simp only [WorkerPc.holds, decide_true, if_true]
        omega
      · simp only [WorkerPc.holds, hp, decide_false]
        exact hheld
    · exact absurd hZero (h.ok.active_pos (active_pos_of_executing h.ok.base hpos))
  | worker pc =>
    obtain ⟨hpc, hst⟩ := ite_none_right_eq_some.mp hst
    exact ⟨h.members.workerStep hpc hst, h.worker hpc hst⟩
  | close =>
    cases hst
    exact ⟨⟨h.members.known, h.members.held⟩, h.quiet⟩

/-- Zero means quiet, in every run. -/
theorem Calm.reach (h : Reach (Sys.step c) (QuietZero c) Sys.init s) : Calm c s :=
  h.invariant .init fun _ _ _ _ ih hg hst => ih.step hg hst

/--
**Drain quiescence.** In every run in which nobody has an access to a slot ahead when
`active_tasks_` becomes zero, over any number of drains and with submissions that fail: when
`drain` is about to call `reset_to_empty`, neither the scheduler nor a worker has an access to a
slot ahead. `reset_to_empty` succeeds, and it leaves the state of a new run with the open scopes:
no queue, map entry, scope or thread names a slot that was dropped.
-/
theorem drain_quiescent (h : Reach (Sys.step c) (QuietZero c) Sys.init s)
    (hd : s.drain = .resetting) :
    s.Quiet ∧ ∃ s', s.step c .reset = some s' ∧ s'.workers = [] ∧
      s'.base = { State.init with scopes := replicate s.base.scopes.length [] } := by
  have hcalm := Calm.reach h
  have hZero := hcalm.ok.zero hd
  have hleft := hcalm.ok.nothingLeft (by rw [hd]; nofun) hZero
  refine ⟨hcalm.quiet hZero, ?_⟩
  obtain ⟨s', hst⟩ : ∃ s', s.step c .reset = some s' := by
    simp only [Sys.step, hd, if_true, Ring.resetToEmpty, hcalm.ok.linked.drained hleft.slabs]
    exact ⟨_, rfl⟩
  obtain ⟨hbase, hworkers⟩ := hcalm.reset hd hst
  exact ⟨s', hst, hworkers, hbase⟩

end Sys

/-- The end of the scope consumes the slot, after its completion has returned. -/
theorem drain_quiescent_drainAfterScope :
    ∃ s, Reach (Sys.step smallHeaps) (Sys.QuietZero smallHeaps) Sys.init s ∧
      s.drain = .resetting ∧ s.ring.slotStates = [⟨0, 0, 2048⟩] ∧ s.Quiet := by
  refine Reach.exists_of_run_imp (P := fun s => s.drain = .resetting ∧
      s.ring.slotStates = [⟨0, 0, 2048⟩]) drainAfterScope (by decide +kernel)
    fun s hs ⟨hd, hslots⟩ => ?_
  exact ⟨hd, hslots, (Sys.drain_quiescent hs hd).1⟩

/-- Slot 0's scope ends while it is ready. It runs, its completion consumes it, and with the
counter at zero the scheduler has yet to read the slot's producers. -/
def scopeEndsFirst : List SysAct :=
  [SysAct.scopeBegin, .submit .sub [[(⟨0, 2000, false⟩, .output)]] [], .reserve] ++
    replicate 10 SysAct.orch ++ [SysAct.scopeEnd] ++ replicate 4 SysAct.orch ++
    [SysAct.popReady .sub, .dispatch, .finish 0, .worker (.isGroup 0), .worker (.push 0),
      .popCompletion] ++ replicate 10 SysAct.sched ++ [SysAct.drain, .observeZero]

/-- **The slots are dropped under the scheduler.** Inside of `on_task_complete(0)` the scheduler has
taken the last one off the counter. `drain` drops slot 0, and the scheduler's next step reads the
slot's producers. -/
theorem dropped_while_completing :
    ∃ s s', Reach (Sys.step smallHeaps) free Sys.init s ∧
      Sys.step smallHeaps s .reset = some s' ∧ ¬ s.Quiet ∧
      s'.ring.slotStates = [] ∧ s'.base.sched = .readProducers 0 :=
  Reach.exists_step_of_run scopeEndsFirst .reset (by decide +kernel)

end PtoRuntime.Hier
