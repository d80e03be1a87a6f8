import PtoRuntime.Cuda.Hands

/-!
# Persistent CUDA executor — circular waiting

A scheduler block that pushes waits for a free cell of the ready queue, and does not take
completions meanwhile. A worker block that reports waits for a free cell of the completion queue,
and does not take tasks meanwhile. With small queues each may wait for the other.

With a cell for every task nobody ever waits for a free one, and what is left to show is that some
block has something to do until all tasks are counted: tasks that are in nobody's hand lie in one of
the queues, and somebody waits there.

Main results: `executor_does_not_jam`, `four_roots_jam`, `crowded_jams`.
-/

namespace PtoRuntime.Cuda

open Lib List Function

/-! ## Waiting -/

/-- The block waits for something that has not happened. A scheduler block that polls for
completions waits while there is none. -/
def SchedPc.Spins (c : Launch) (s : State) : SchedPc → Prop
  | .push (.wait _ i) _ => s.ready.flags (i % c.queueCapacity) ≠ 0
  | .pop _ (.wait i) | .pop _ (.error i) => s.completion.flags (i % c.queueCapacity) ≠ i + 1
  | .barrier | .barrierError => s.initCount < c.schedulers
  | .loop | .loopError | .pop _ .head | .pop _ (.tail _) | .published _ | .finished ..
  | .claimed .. | .completed .. | .scan _ => s.completion.tail ≤ s.completion.head
  | _ => False

def WorkPc.Spins (c : Launch) (s : State) : WorkPc → Prop
  | .wait i | .error i => s.ready.flags (i % c.queueCapacity) ≠ i + 1
  | .report (.wait _ i) => s.completion.flags (i % c.queueCapacity) ≠ 0
  | _ => False

/-- The block's next step only repeats a wait that has failed. -/
def Spins (c : Launch) (s : State) : Act → Prop
  | .sched b => (s.sched b).Spins c s
  | .work w => (s.work w).Spins c s

/-- No block has a step other than that. -/
def Stuck (c : Launch) (s : State) : Prop := ∀ a s', s.step c a = some s' → Spins c s a

variable {c : Dag} {s : State} {t w i : Nat}

/-! ## Nobody can move -/

/-- A scheduler block that has not returned and does not wait for a free cell can make a step. -/
theorem exists_schedStep {b : Nat} (hdone : s.sched b ≠ .done)
    (hfree : ∀ t i k, s.sched b = .push (.wait t i) k → s.ready.flags (i % c.queueCapacity) = 0) :
    ∃ s', s.schedStep c b = some s' := by
  obtain ⟨pc, hpc⟩ : ∃ pc, s.sched b = pc := ⟨_, rfl⟩
  unfold State.schedStep
  rw [hpc]
  cases pc with
  | done => exact absurd hpc hdone
  | push pc k =>
    cases pc with
    | wait t i => exact ⟨_, if_pos (hfree t i k hpc)⟩
    | ticket t | publish t i => exact ⟨_, rfl⟩
  | pop late pc =>
    cases pc with
    | head | take i => exact ⟨_, rfl⟩
    | tail head | cas head | wait i | error i =>
      dsimp only [State.popStep]
      split <;> exact ⟨_, rfl⟩
  | init idx | dependent u idx | scan idx =>
    dsimp only
    repeat' split
    all_goals exact ⟨_, rfl⟩
  | barrier | barrierError | checkTail | loop | loopError | process | readFanin | casFanin
  | completed =>
    dsimp only
    split <;> exact ⟨_, rfl⟩
  | _ => exact ⟨_, rfl⟩

/-- In a stuck state a worker has returned, or waits with a ticket whose flag is not up. -/
theorem Stuck.worker (hstuck : Stuck c s) (hbusy : Busy c s) (hw : w < c.workerBlocks) :
    s.work w = .done ∨
      ∃ i, (s.work w).drawn? = some i ∧ s.ready.flags (i % c.queueCapacity) ≠ i + 1 := by
  have hspins (s' : State) (hs : s.workStep c w = some s') : (s.work w).Spins c s :=
    hstuck (.work w) s' ((if_pos hw).trans hs)
  obtain ⟨pc, hpc⟩ : ∃ pc, s.work w = pc := ⟨_, rfl⟩
  unfold State.workStep at hspins
  rw [hpc] at hspins ⊢
  cases pc with
  | done => exact .inl rfl
  | wait i | error i =>
    refine .inr ⟨i, rfl, ?_⟩
    dsimp only at hspins
    split at hspins <;> exact hspins _ rfl
  | ticket | run t =>
    dsimp only at hspins
    split at hspins <;> exact (hspins _ rfl).elim
  | take i | fail t => exact (hspins _ rfl).elim
  | report pc =>
    cases pc with
    | ticket t | publish t i => exact (hspins _ rfl).elim
    | wait t i =>
      -- the flag of a ticket in hand is down
      have hflies : Reporting s i := ⟨w, by rw [hpc]; exact rfl⟩
      have hdown := hbusy.completion.flag_down hflies
      exact absurd hdown (hspins _ (if_pos hdown))

/-- A worker with something in hand can make a step. -/
theorem Stuck.not_busy (hstuck : Stuck c s) (hbusy : Busy c s) {P : WorkPc → Prop}
    (hP : ∀ pc, P pc → pc ≠ .ticket ∧ pc ≠ .done ∧ pc.drawn? = none) : ¬ P (s.work w) := by
  intro hpc
  obtain ⟨hticket, hdone, hdrawn⟩ := hP _ hpc
  have hw : w < c.workerBlocks := by
    by_contra hge
    exact hticket (hbusy.seats w (not_lt.mp hge))
  rcases hstuck.worker hbusy hw with hdone' | ⟨i, hi, -⟩
  · exact hdone hdone'
  · cases hdrawn.symm.trans hi

theorem Stuck.not_has (hstuck : Stuck c s) (hbusy : Busy c s) : ¬ (s.work w).Has t := by
  refine hstuck.not_busy hbusy (P := (WorkPc.Has · t)) fun pc hpc => ?_
  cases pc <;> first
    | exact hpc.elim
    | exact ⟨nofun, nofun, rfl⟩

theorem Stuck.not_reporting (hstuck : Stuck c s) (hbusy : Busy c s) : ¬ Reporting s i := by
  rintro ⟨w, hflies⟩
  refine hstuck.not_busy hbusy (P := (WorkPc.Flies · i)) (fun pc hpc => ?_) hflies
  cases pc <;> first
    | exact hpc.elim
    | exact ⟨nofun, nofun, rfl⟩

/-- The flag of a queued task is up while the scheduler block is not pushing. -/
theorem Busy.flag_of_queued (h : Busy c s) (hflies : ∀ i, ¬ (s.sched 0).Flies i)
    (hi : s.pushed[i]? = some t) (hph : s.phase t = .queued) :
    s.ready.flags (i % c.queueCapacity) = i + 1 :=
  h.ready.flag_up ⟨t, hi, hph⟩ (hflies i)

/-- Somebody waits for the queued task. -/
theorem Stuck.not_queued (hstuck : Stuck c s) (hbusy : Busy c s) (hinv : Inv c s)
    (hworkers : 1 ≤ c.workerBlocks) (hflies : ∀ i, ¬ (s.sched 0).Flies i) :
    s.phase t ≠ .queued := by
  intro hph
  have hmem : t ∈ s.pushed := (hinv.ledger.pushed.mem_iff t).mpr (by simp [hph])
  obtain ⟨i, hlt, rfl⟩ := getElem_of_mem hmem
  have hi : s.pushed[i]? = some s.pushed[i] := getElem?_eq_getElem hlt
  have htasks : s.pushed.length ≤ c.taskCount := hinv.ledger.pushed.length_le fun x hx =>
    (hinv.ledger.zero x (by rintro he; rw [he] at hx; simp at hx)).1
  rcases lt_or_ge i s.ready.head with hdrawn | hundrawn
  · -- a worker has the ticket
    rcases hbusy.drawn i hdrawn (by omega) with ⟨w, hw⟩ | ⟨x, hx, hrank⟩
    · have hlt : w < c.workerBlocks := by
        by_contra hge
        rw [hbusy.seats w (not_lt.mp hge)] at hw
        cases hw
      rcases hstuck.worker hbusy hlt with hdone | ⟨j, hj, hdown⟩
      · rw [hdone] at hw
        cases hw
      · cases hw.symm.trans hj
        exact hdown (hbusy.flag_of_queued hflies hi hph)
    · cases hi.symm.trans hx
      rw [hph] at hrank
      simp at hrank
  · -- nobody has, but the first worker has an earlier one
    rcases hstuck.worker hbusy hworkers with hdone | ⟨j, hj, hdown⟩
    · have := hbusy.left 0 hdone
      omega
    · obtain ⟨hhead, -, hqueued⟩ := hinv.tickets.held 0 hworkers j hj
      have hlt : j < s.pushed.length := by omega
      have hold : s.pushed[j]? = some s.pushed[j] := getElem?_eq_getElem hlt
      exact hdown (hbusy.flag_of_queued hflies hold (hqueued _ hold))

/-- If the scheduler block has nothing in hand and finds no completion, all pushed tasks are
counted. -/
theorem Stuck.idle (hstuck : Stuck c s) (hbusy : Busy c s) (hinv : Inv c s)
    (hworkers : 1 ≤ c.workerBlocks) (hflies : ∀ i, ¬ (s.sched 0).Flies i)
    (hhas : ∀ u, ¬ (s.sched 0).Has s.reported u)
    (hnone : s.completion.tail ≤ s.completion.head) : Idle s := by
  have hcounted (t : Nat) (ht : 2 ≤ (s.phase t).rank) : 7 ≤ (s.phase t).rank := by
    cases hph : s.phase t with
    | unready | pushing b =>
      rw [hph] at ht
      simp at ht
    | queued => exact absurd hph (hstuck.not_queued hbusy hinv hworkers hflies)
    | running w => exact absurd (hbusy.working t w (.inl hph)) (hstuck.not_has hbusy)
    | reporting w => exact absurd (hbusy.working t w (.inr hph)) (hstuck.not_has hbusy)
    | finished =>
      have hmem : t ∈ s.reported := (hinv.ledger.reported.mem_iff t).mpr (by simp [hph])
      obtain ⟨i, hlt, rfl⟩ := getElem_of_mem hmem
      have htail := hinv.ledger.completion.tail
      have hrank := hbusy.claimed i _ (getElem?_eq_getElem hlt) (by omega)
      rw [hph] at hrank
      simp at hrank
    | processing b => exact absurd (hbusy.processing t b hph) (hhas t)
    | completed => exact le_refl 7
  have hsub : s.pushed ⊆ s.counted := by
    intro t ht
    exact (hinv.ledger.counted.mem_iff t).mpr (hcounted t ((hinv.ledger.pushed.mem_iff t).mp ht))
  rw [Idle, hinv.ledger.ready.tail, hinv.ledger.completedCount]
  exact (hinv.ledger.pushed.nodup.subperm hsub).length_le

/-- When all pushed tasks are counted, all tasks are. -/
theorem Sound.all_counted (h : Sound c s) (hinv : Inv c s) (hfit : c.Fits) (hwf : c.WellFormed)
    (herr : s.errorCount = 0) (hall : AllInited c s) (hidle : Idle s) :
    c.taskCount ≤ s.completedCount := by
  have hzero := h.fanin_eq_zero hinv hfit hwf herr hall hidle
  have hsub : range c.taskCount ⊆ s.counted := by
    intro t ht
    have hlt : t < c.taskCount := mem_range.mp ht
    refine h.counted_of_idle hinv hall hidle ?_
    by_cases hroot : c.fanin t = 0
    · exact h.root hinv hall hlt hroot
    · exact h.woken t (hzero t hlt) hroot
  have hle := (nodup_range.subperm hsub).length_le
  rwa [length_range, ← hinv.ledger.completedCount] at hle

/-- **The executor does not jam**: with one scheduler block, at least one worker and a cell of the
queues for every task, some block can make a step other than the repetition of a failed wait, as
long as not all tasks are counted. -/
theorem executor_does_not_jam (c : Dag) (hfit : c.Fits) (hwf : c.WellFormed)
    (hone : c.schedulers = 1) (hworkers : 1 ≤ c.workerBlocks)
    (hr : Reach (State.step c) free (State.init c) s) (hopen : s.completedCount < c.taskCount)
    (herr : s.errorCount = 0) : ¬ Stuck c s := by
  intro hstuck
  have hinv : Inv c s := .reach hfit hr
  have hsound : Sound c s := .reach hfit hwf hr
  have hbusy : Busy c s := (InOrder.reach hfit hwf hone hr).2
  have hok := hinv.sched 0 (schedulers_pos c)
  -- the scheduler block can make a step, so it waits
  have hspins : (s.sched 0).Spins c s := by
    obtain ⟨s', hs'⟩ : ∃ s', s.schedStep c 0 = some s' := by
      refine exists_schedStep ?_ ?_
      · intro hdone
        rw [hdone] at hok
        rcases hok with hle | hne
        · omega
        · exact hne herr
      · intro t i k hpc
        have hflies : (s.sched 0).Flies i := by
          rw [hpc]
          exact rfl
        exact hbusy.ready.flag_down hflies
    exact hstuck (.sched 0) s' ((if_pos (schedulers_pos c)).trans hs')
  -- if it polls, all pushed tasks are counted, and then all tasks are
  have hpolls (hflies : ∀ i, ¬ (s.sched 0).Flies i) (hhas : ∀ u, ¬ (s.sched 0).Has s.reported u)
      (hall : AllInited c s ∨ s.errorCount ≠ 0) (hnone : s.completion.tail ≤ s.completion.head) :
      False := by
    have hidle := hstuck.idle hbusy hinv hworkers hflies hhas hnone
    have := hsound.all_counted hinv hfit hwf herr (hall.resolve_right fun hne => hne herr) hidle
    omega
  obtain ⟨pc, hpc⟩ : ∃ pc, s.sched 0 = pc := ⟨_, rfl⟩
  rw [hpc] at hspins hok hpolls
  cases pc with
  | push pc k =>
    cases pc with
    | ticket t | publish t i => exact hspins
    | wait t i =>
      have hflies : (s.sched 0).Flies i := by
        rw [hpc]
        exact rfl
      exact hspins (hbusy.ready.flag_down hflies)
  | pop late pc =>
    cases pc with
    | head | tail head => exact hpolls (fun _ => id) (fun _ => id) (.inl hok) hspins
    | cas head | take i => exact hspins
    | wait i | error i =>
      obtain ⟨-, u, hu, -⟩ := hok
      have hdue : CompletionDue s i := by
        refine ⟨(List.getElem?_eq_some_iff.mp hu).1, .inr ?_⟩
        rw [hpc]
        exact rfl
      exact hspins (hbusy.completion.flag_up hdue (hstuck.not_reporting hbusy))
  | barrier | barrierError =>
    have hmem : 0 ∈ s.inited :=
      (hinv.inits.inited.mem_iff 0).mpr ⟨schedulers_pos c, by rw [hpc]; rfl⟩
    have hlen := length_pos_of_mem hmem
    have hcount := hinv.inits.count
    have hspins : s.initCount < c.schedulers := hspins
    omega
  | loop | loopError => exact hpolls (fun _ => id) (fun _ => id) hok hspins
  | published | finished | claimed | completed | scan =>
    exact hpolls (fun _ => id) (fun _ => id) (.inl hok) hspins
  | _ => exact hspins

theorem twoInOrder_wellFormed : twoInOrder.WellFormed where
  launched := by decide
  counted := by decide
  ranges := by decide
  tasks := by decide
  distinct := by decide
  known := by decide
  acyclic := by
    refine acyclic_of_lt fun u t hedge => ?_
    obtain ⟨-, -, k, hk, rfl⟩ := hedge
    -- only task 0 has a list, and names task 1
    have hk : k < if u = 0 then 1 else 0 := hk
    show u < 1
    split at hk <;> omega

/-- The worker waits for the second task while the first one is being processed. -/
theorem executor_does_not_jam_twoInOrder : ∃ s,
    Reach (State.step twoInOrder) free (State.init twoInOrder) s ∧ s.work 0 = .wait 1 ∧
      s.completedCount < 2 ∧ s.errorCount = 0 ∧ ¬ Stuck twoInOrder s := by
  refine Reach.exists_of_run_imp (P := fun s => s.work 0 = .wait 1 ∧ s.completedCount < 2 ∧
      s.errorCount = 0) (schedTurns 0 4 ++ workTurns 0 8) (by decide +kernel)
    fun s hr ⟨hwait, hopen, herr⟩ => ?_
  exact ⟨hwait, hopen, herr, executor_does_not_jam twoInOrder twoInOrder_fits
    twoInOrder_wellFormed rfl (le_refl 1) hr hopen herr⟩

/-- With one scheduler block, a launch that returns has executed the whole graph in order. -/
theorem one_scheduler_executes (hfit : c.Fits) (hwf : c.WellFormed) (hone : c.schedulers = 1)
    (hr : Reach (State.step c) free (State.init c) s) (hsched : s.sched 0 = .done)
    (hwork : ∀ w < c.workerBlocks, s.work w = .done) :
    s.errorCount = 0 ∧ ∀ t < c.taskCount,
      s.log.count (.start t) = 1 ∧ s.log.count (.finish t) = 1 ∧
        ∀ u < c.taskCount, c.Lists u t →
          ∀ l₁ l₂, s.log = l₁ ++ .start t :: l₂ → .finish u ∈ l₁ := by
  have hinv : Inv c s := .reach hfit hr
  have herr := (InOrder.reach hfit hwf hone hr).1.1
  have hend : Succeeded c s := ⟨fun b hb => by rwa [show b = 0 by omega], hwork, herr⟩
  refine ⟨herr, fun t ht => ?_⟩
  obtain ⟨hstart, hfinish⟩ := hinv.executed_once hend ht
  exact ⟨hstart, hfinish, fun u hu hl _ _ => hinv.after_listers hfit hend hu hl⟩

theorem one_scheduler_executes_twoInOrder : ∃ s,
    Reach (State.step twoInOrder) free (State.init twoInOrder) s ∧ s.errorCount = 0 ∧
      s.log.count (.start 1) = 1 ∧ ∀ l₁ l₂, s.log = l₁ ++ .start 1 :: l₂ → .finish 0 ∈ l₁ := by
  refine Reach.exists_of_run_imp (P := Succeeded twoInOrder)
    (schedTurns 0 10 ++ workTurns 0 7 ++ schedTurns 0 18 ++ workTurns 0 8 ++ schedTurns 0 13)
    (by decide +kernel) fun s hr hend => ?_
  obtain ⟨herr, hall⟩ := one_scheduler_executes twoInOrder_fits twoInOrder_wellFormed
    rfl hr (hend.sched 0 (by decide)) hend.work
  obtain ⟨hstart, -, horder⟩ := hall 1 (by decide)
  exact ⟨herr, hstart, horder 0 (by decide) ⟨0, by decide, rfl⟩⟩

/-! ## Small queues -/

/-- Tasks without dependencies, and one scheduler block. -/
def roots (taskCount queueCapacity workerBlocks : Nat) : Launch where
  tasks _ := ⟨0, 0, 0, 0⟩
  taskCount
  dependents _ := 0
  dependentCount := 0
  fanin _ := 0
  queueCapacity
  schedulerBlocks := 1
  workerBlocks
  known _ := true

theorem roots_wellFormed (n q w : Nat) : (roots n q w).WellFormed where
  launched _ _ := rfl
  counted t _ := by simp [roots, Launch.listers, Launch.Lists]
  ranges _ _ := le_rfl
  tasks _ _ k hk := absurd hk (Nat.not_lt_zero k)
  distinct _ _ j hj := absurd hj (Nat.not_lt_zero j)
  known _ _ := rfl
  acyclic := by
    refine acyclic_of_lt fun u t hedge => ?_
    obtain ⟨-, -, k, hk, -⟩ := hedge
    exact absurd hk (Nat.not_lt_zero k)

/-- Four tasks without dependencies, one scheduler block, one worker, and queues of one cell. -/
def fourRoots : Launch := roots 4 1 1

/-- **The executor jams.** The scheduler block waits to push the last task, since the third is not
taken; the worker waits to report the second, since the report of the first is not taken. -/
theorem four_roots_jam : fourRoots.WellFormed ∧ fourRoots.Fits ∧ fourRoots.schedulers = 1 ∧ ∃ s,
    Reach (State.step fourRoots) free (State.init fourRoots) s ∧
      s.completedCount < fourRoots.taskCount ∧ s.errorCount = 0 ∧ Stuck fourRoots s := by
  refine ⟨roots_wellFormed .., ⟨by decide, by decide, by decide⟩, rfl, ?_⟩
  obtain ⟨s, hr, hopen, herr, hsched, hwork⟩ : ∃ s,
      Reach (State.step fourRoots) free (State.init fourRoots) s ∧
        s.completedCount < fourRoots.taskCount ∧ s.errorCount = 0 ∧
          (s.schedStep fourRoots 0).isNone ∧ (s.workStep fourRoots 0).isNone :=
    Reach.exists_of_run (schedTurns 0 4 ++ workTurns 0 7 ++ schedTurns 0 4 ++ workTurns 0 5 ++
      schedTurns 0 6) (by decide +kernel)
  rw [Option.isNone_iff_eq_none] at hsched hwork
  refine ⟨s, hr, hopen, herr, ?_⟩
  intro a s' hs
  cases a with
  | sched b =>
    obtain ⟨hb, hs⟩ := Option.ite_none_right_eq_some.mp hs
    have hzero : b = 0 := Nat.lt_one_iff.mp hb
    rw [hzero, hsched] at hs
    cases hs
  | work w =>
    obtain ⟨hw, hs⟩ := Option.ite_none_right_eq_some.mp hs
    have hzero : w = 0 := Nat.lt_one_iff.mp hw
    rw [hzero, hwork] at hs
    cases hs

/-- Two workers, and one cell too few. -/
abbrev crowded (q : Nat) : Launch := roots (q + 1) q 2

/-- `k` tasks were pushed and taken. Worker 0 is about to look at the cell for its report of the
first one; worker 1 has reported the others. -/
structure Parked (k : Nat) (s : State) : Prop where
  sched : s.sched 0 = .init k
  head : s.ready.head = k
  tail : s.ready.tail = k
  taken : ∀ i, s.ready.flags i = 0
  claimed : s.completion.head = 0
  reports : s.completion.tail = k
  fanin : ∀ t, s.fanin t = 0
  calm : s.errorCount = 0 ∧ s.completedCount = 0 ∧ s.initCount = 0
  first : s.work 0 = .report (.wait 0 0)
  second : s.work 1 = .ticket

variable {q k : Nat}

/-- The next task goes through worker 1, whose report finds its cell free. -/
theorem Parked.next (h : Parked k s) (hfit : q + 3 < 2 ^ 32) (hk : k ≤ q)
    (hfree : s.completion.flags (k % q) = 0) : ∃ s',
      Reach (State.step (crowded q)) free s s' ∧ Parked (k + 1) s' ∧
        s'.completion.flags = update s.completion.flags (k % q) (k + 1) := by
  have hnext : (k + 1) % 4294967296 = k + 1 := Nat.mod_eq_of_lt (by omega)
  refine Reach.exists_of_runOk (schedTurns 0 4 ++ workTurns 1 7) ?_
  simp [schedTurns, workTurns, runOk_free_cons, runOk_nil, replicate, State.step, State.schedStep,
    State.workStep, State.pushStep, State.reportStep, State.setSched, State.setWork, State.setPhase,
    State.drawReady, State.publishReady, State.startTask, State.finishTask, State.drawCompletion,
    State.publishCompletion, TicketQueue.draw, TicketQueue.publish, TicketQueue.clear, roots,
    Launch.schedulers, Launch.nextIdx, PushReturn.pc, h.sched, h.taken, h.fanin, h.second, hfree,
    Nat.lt_succ_of_le hk, Nat.not_lt.mpr hk, h.head, h.tail, h.reports, hnext]
  exact { h with
    sched := by simp, head := rfl, tail := rfl, taken := by simp [h.taken, update_apply]
    reports := rfl, first := by simp [h.first], second := by simp }

theorem exists_parked (hfit : q + 3 < 2 ^ 32) (hk : k < q) : ∃ s,
    Reach (State.step (crowded q)) free (State.init (crowded q)) s ∧ Parked (k + 1) s ∧
      ∀ i, i = 0 ∨ k < i → s.completion.flags i = 0 := by
  induction k with
  | zero =>
    refine Reach.exists_of_runOk (schedTurns 0 4 ++ workTurns 0 5) ?_
    refine ⟨_, rfl, ⟨rfl, rfl, rfl, fun i => ?_, rfl, rfl, fun _ => rfl, ⟨rfl, rfl, rfl⟩, rfl,
      rfl⟩, fun _ _ => rfl⟩
    change update (update (fun _ => 0) 0 1) 0 0 i = 0
    simp [update_apply]
  | succ k ih =>
    obtain ⟨s, hr, hs, hflags⟩ := ih (by omega)
    have hcell : (k + 1) % q = k + 1 := Nat.mod_eq_of_lt hk
    obtain ⟨s', hr', hs', hflags'⟩ := hs.next hfit hk.le (by rw [hcell, hflags _ (by omega)])
    refine ⟨s', hr.trans hr', hs', fun i hi => ?_⟩
    rw [hflags', hcell, update_of_ne (by omega), hflags i (by omega)]

/-- **One cell too few jams two workers**, whatever the capacity. The report of the last task takes
the cell of the first report; worker 0 waits for the cell, and the scheduler block for worker 0. -/
theorem crowded_jams (hfit : q + 3 < 2 ^ 32) (hq : 0 < q) : (crowded q).WellFormed ∧
    (crowded q).Fits ∧ (crowded q).schedulers = 1 ∧ ∃ s,
      Reach (State.step (crowded q)) free (State.init (crowded q)) s ∧
        s.completedCount < (crowded q).taskCount ∧ s.errorCount = 0 ∧ Stuck (crowded q) s := by
  have hscan : q + 1 + 1 ≤ 2 ^ 32 := by omega
  refine ⟨roots_wellFormed .., ⟨hscan, hfit, fun _ _ => .inl (Nat.zero_le _)⟩, rfl, ?_⟩
  obtain ⟨s, hr, hs, hflags⟩ := exists_parked hfit (Nat.sub_one_lt_of_lt hq)
  rw [Nat.sub_add_cancel hq] at hs
  obtain ⟨s₁, hr₁, h, hflags₁⟩ := hs.next hfit le_rfl (by rw [Nat.mod_self, hflags 0 (.inl rfl)])
  rw [Nat.mod_self] at hflags₁
  obtain ⟨s', hr', hsched, hfirst, hsecond, hflag, herr, hcount⟩ : ∃ s',
      Reach (State.step (crowded q)) free s₁ s' ∧ s'.sched 0 = .pop false (.wait 0) ∧
        s'.work 0 = .report (.wait 0 0) ∧ s'.work 1 = .done ∧ s'.completion.flags 0 = q + 1 ∧
        s'.errorCount = 0 ∧ s'.completedCount = 0 := by
    refine Reach.exists_of_runOk (workTurns 1 1 ++ schedTurns 0 10) ?_
    simp [schedTurns, workTurns, runOk_free_cons, runOk_nil, replicate, State.step, State.schedStep,
      State.popStep, State.workStep, State.setWork, State.setSched, State.countInit, State.claim,
      afterBarrier, roots, Launch.schedulers, h.sched, h.first, h.second, h.head, h.tail, h.claimed,
      h.reports, h.calm, hflags₁]
  refine ⟨s', (hr.trans hr₁).trans hr', hcount ▸ Nat.succ_pos q, herr, fun a s'' hstep => ?_⟩
  cases a with
  | sched b =>
    obtain rfl : b = 0 := Nat.lt_one_iff.mp (Option.ite_none_right_eq_some.mp hstep).1
    simp [Spins, SchedPc.Spins, hsched, hflag, hq.ne']
  | work w =>
    obtain ⟨hw, hstep⟩ := Option.ite_none_right_eq_some.mp hstep
    rcases Nat.le_one_iff_eq_zero_or_eq_one.mp (Nat.le_of_lt_succ hw) with rfl | rfl
    · simp [Spins, WorkPc.Spins, hfirst, hflag]
    · rw [State.workStep, hsecond] at hstep
      cases hstep

end PtoRuntime.Cuda
