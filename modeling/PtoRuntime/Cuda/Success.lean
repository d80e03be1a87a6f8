import PtoRuntime.Cuda.Invariant

/-!
# Persistent CUDA executor — what a run without an error has done

No graph is assumed here: counters that the host has set wrongly, dependents that do not exist or
cycles may leave a run stuck or end it with an error. But a run in which all blocks return and
`error_count` is zero has executed every task once, and after the tasks that list it. What the
kernel needs for that is that its 32-bit sums do not wrap around (`Launch.Fits`).

Main results: `success_is_correct`, `success_out_of_order`.
-/

namespace PtoRuntime.Cuda

open Lib List

variable {c : Dag} {s : State} {t u k : Nat}

/-- Task `u` lists task `t` as a dependent. -/
def Launch.Lists (c : Launch) (u t : Nat) : Prop :=
  ∃ k < (c.tasks u).dependentCount, c.dependents ((c.tasks u).dependentBegin + k) = t

instance (c : Launch) (u t : Nat) : Decidable (c.Lists u t) :=
  inferInstanceAs (Decidable (∃ k < (c.tasks u).dependentCount,
    c.dependents ((c.tasks u).dependentBegin + k) = t))

/-- All blocks of the grid have returned and no error is recorded. -/
structure Succeeded (c : Dag) (s : State) : Prop where
  sched : ∀ b < c.schedulers, s.sched b = .done
  work : ∀ w < c.workerBlocks, s.work w = .done
  error : s.errorCount = 0

instance : Decidable (Succeeded c s) :=
  decidable_of_iff ((∀ b < c.schedulers, s.sched b = .done) ∧
      (∀ w < c.workerBlocks, s.work w = .done) ∧ s.errorCount = 0)
    ⟨fun ⟨h₁, h₂, h₃⟩ => ⟨h₁, h₂, h₃⟩, fun h => ⟨h.sched, h.work, h.error⟩⟩

/-! ## From the invariant to the end of a run -/

/-- The index of a dependent does not wrap around where the range is inside the table. -/
theorem dependentId_eq (hfit : c.Fits) (hu : u < c.taskCount)
    (hrange : (c.tasks u).dependentBegin + (c.tasks u).dependentCount ≤ c.dependentCount)
    (hk : k < (c.tasks u).dependentCount) :
    c.dependentId u k = c.dependents ((c.tasks u).dependentBegin + k) := by
  have hfits := (hfit.ranges u hu).resolve_right (not_lt.mpr hrange)
  unfold Launch.dependentId
  rw [Nat.mod_eq_of_lt (by omega)]

theorem Inv.count_le_one (h : Inv c s) (e : Event) : s.log.count e ≤ 1 :=
  nodup_iff_count_le_one.mp h.ledger.log.nodup e

/-- A scheduler block that has returned without an error saw all tasks counted. -/
theorem Inv.all_counted (h : Inv c s) (hend : Succeeded c s) :
    ∀ t < c.taskCount, 7 ≤ (s.phase t).rank := by
  intro t ht
  have hblock := schedulers_pos c
  have hdone := h.sched 0 hblock
  rw [hend.sched 0 hblock] at hdone
  have hcompleted : c.taskCount ≤ s.completedCount := hdone.resolve_right fun hne => hne hend.error
  -- as many entries as there are tasks, all of them tasks, none twice
  refine h.ledger.counted.subset_of_length_le (range c.taskCount) (fun x hx => ?_) ?_ t
    (mem_range.mpr ht)
  · refine mem_range.mpr (h.ledger.zero x fun hph => ?_).1
    rw [hph] at hx
    exact absurd hx (by decide)
  · rw [length_range, ← h.ledger.completedCount]
    exact hcompleted

theorem Inv.executed_once (h : Inv c s) (hend : Succeeded c s) (ht : t < c.taskCount) :
    s.log.count (.start t) = 1 ∧ s.log.count (.finish t) = 1 := by
  have hrank := h.all_counted hend t ht
  have honce (e : Event) (he : e.Happened s.phase) : s.log.count e = 1 :=
    count_eq_one_of_mem h.ledger.log.nodup ((h.ledger.log.mem_iff e).mpr he)
  exact ⟨honce (.start t) (by show 3 ≤ _; omega), honce (.finish t) (by show 4 ≤ _; omega)⟩

/-- Who lists a task was taken off the task's fanin before the task was pushed. -/
theorem Inv.after_listers (h : Inv c s) (hfit : c.Fits) (hend : Succeeded c s)
    (hu : u < c.taskCount) (hlists : c.Lists u t) {l₁ l₂ : List Event}
    (hlog : s.log = l₁ ++ .start t :: l₂) : .finish u ∈ l₁ := by
  obtain ⟨k, hk, hkt⟩ := hlists
  have hcounted : u ∈ s.counted := (h.ledger.counted.mem_iff u).mpr (h.all_counted hend u hu)
  have hpassed := h.clean u hcounted
  have hdec := hpassed.2 hend.error k hk
  rw [dependentId_eq hfit hu hpassed.1 hk, hkt] at hdec
  exact h.ledger.order t l₁ l₂ hlog u hdec

/-! ## Main result -/

/--
**A run that reports success is correct.** In every run on every task table whose sums fit into 32
bits: no task is started twice; and where all blocks have returned with `error_count` zero, every
task has been started once and finished once, and started only after every task that lists it had
finished.
-/
theorem success_is_correct (hfit : c.Fits)
    (hr : Reach (State.step c) free (State.init c) s) :
    (∀ t, s.log.count (.start t) ≤ 1) ∧
      (Succeeded c s → ∀ t < c.taskCount,
        s.log.count (.start t) = 1 ∧ s.log.count (.finish t) = 1 ∧
          ∀ u < c.taskCount, c.Lists u t →
            ∀ l₁ l₂, s.log = l₁ ++ .start t :: l₂ → .finish u ∈ l₁) := by
  have hinv : Inv c s := .reach hfit hr
  refine ⟨fun t => hinv.count_le_one (.start t), fun hend t ht => ?_⟩
  obtain ⟨hstart, hfinish⟩ := hinv.executed_once hend ht
  refine ⟨hstart, hfinish, fun u hu hlists l₁ l₂ hlog => ?_⟩
  exact hinv.after_listers hfit hend hu hlists hlog

/-- Two tasks, the first of which lists the second; one block of each kind. -/
def twoInOrder : Dag where
  tasks t := ⟨0, 0, if t = 0 then 1 else 0, if t = 0 then 0 else 1⟩
  taskCount := 2
  dependents _ := 1
  dependentCount := 1
  fanin t := if t = 0 then 0 else 1
  queueCapacity := 2
  schedulerBlocks := 1
  workerBlocks := 1
  known _ := true
  roomy := by decide
  word := by decide

theorem twoInOrder_fits : twoInOrder.Fits where
  scan := by decide
  heads := by decide
  ranges t _ := by
    refine .inl ?_
    show 0 + (if t = 0 then 1 else 0) ≤ 2 ^ 32
    split <;> omega

/-- Scheduler block `b` makes `n` steps. -/
def schedTurns (b n : Nat) : List Act := replicate n (.sched b)

/-- Worker block `w` makes `n` steps. -/
def workTurns (w n : Nat) : List Act := replicate n (.work w)

theorem success_is_correct_twoInOrder : ∃ s,
    Reach (State.step twoInOrder) free (State.init twoInOrder) s ∧ Succeeded twoInOrder s ∧
      s.log.count (.start 1) = 1 ∧ s.log.count (.finish 1) = 1 ∧
      ∀ l₁ l₂, s.log = l₁ ++ .start 1 :: l₂ → .finish 0 ∈ l₁ := by
  refine Reach.exists_of_run_imp (P := fun s => Succeeded twoInOrder s)
    (schedTurns 0 10 ++ workTurns 0 7 ++ schedTurns 0 18 ++ workTurns 0 8 ++ schedTurns 0 13)
    (by decide +kernel) fun s hr hend => ?_
  obtain ⟨hstart, hfinish, horder⟩ := (success_is_correct twoInOrder_fits hr).2 hend 1 (by decide)
  exact ⟨hend, hstart, hfinish, horder 0 (by decide) ⟨0, by decide, rfl⟩⟩

/-- No worker draws more than one ticket beyond the tasks, and no task is counted twice: the
32-bit counters do not wrap around. -/
theorem counters_bounded (hfit : c.Fits) (hr : Reach (State.step c) free (State.init c) s) :
    s.ready.head ≤ c.taskCount + c.workerBlocks ∧ s.completedCount ≤ c.taskCount := by
  have hinv : Inv c s := .reach hfit hr
  have hgone : s.returned ⊆ range c.workerBlocks := fun w hw =>
    mem_range.mpr (hinv.tickets.gone w hw).1
  have hcounted : s.counted ⊆ range c.taskCount := fun t ht => by
    refine mem_range.mpr (hinv.ledger.zero t fun hph => ?_).1
    have hrank := (hinv.ledger.counted.mem_iff t).mp ht
    rw [hph] at hrank
    exact absurd hrank (by decide)
  have hle := (hinv.tickets.returned.subperm hgone).length_le
  have hle' := (hinv.ledger.counted.nodup.subperm hcounted).length_le
  rw [length_range] at hle hle'
  exact ⟨hinv.tickets.head.trans (by omega), hinv.ledger.completedCount ▸ hle'⟩

theorem counters_bounded_twoInOrder : ∃ s,
    Reach (State.step twoInOrder) free (State.init twoInOrder) s ∧ s.work 0 = .done ∧
      s.ready.head ≤ 2 + 1 ∧ s.completedCount ≤ 2 :=
  Reach.exists_of_run_imp (P := fun s => s.work 0 = .done)
    (schedTurns 0 10 ++ workTurns 0 7 ++ schedTurns 0 18 ++ workTurns 0 8)
    (by decide +kernel) fun _ hr hd => ⟨hd, counters_bounded twoInOrder_fits hr⟩

/-! ## Without the bound -/

/-- Task 2 lists tasks 1 and 0; its list starts at the last entry a 32-bit index can reach. -/
def listAcrossTheEnd : Dag where
  tasks t := ⟨0, if t = 2 then 2 ^ 32 - 1 else 0, if t = 2 then 2 else 0,
    if t % 2 = 0 then 0 else 1⟩
  taskCount := 4
  dependents i := if i = 2 ^ 32 then 0 else if i = 0 then 3 else 1
  dependentCount := 2 ^ 32 + 1
  fanin t := if t % 2 = 0 then 0 else 1
  queueCapacity := 4
  schedulerBlocks := 1
  workerBlocks := 1
  known _ := true
  roomy := by decide
  word := by decide

/-- The run reports success; task 0 was started before task 2, which lists it. -/
theorem success_out_of_order : ∃ s,
    Reach (State.step listAcrossTheEnd) free (State.init listAcrossTheEnd) s ∧
      Succeeded listAcrossTheEnd s ∧ listAcrossTheEnd.Lists 2 0 ∧
      s.log = [.start 0, .finish 0, .start 2, .finish 2, .start 1, .finish 1, .start 3,
        .finish 3] := by
  refine Reach.exists_of_run_imp (P := fun s => Succeeded listAcrossTheEnd s ∧ s.log = [.start 0,
      .finish 0, .start 2, .finish 2, .start 1, .finish 1, .start 3, .finish 3])
    (schedTurns 0 15 ++ workTurns 0 14 ++ schedTurns 0 36 ++ workTurns 0 15 ++ schedTurns 0 25)
    (by decide +kernel) fun s hr ⟨hend, hlog⟩ => ?_
  exact ⟨hend, ⟨1, by decide, by decide⟩, hlog⟩

end PtoRuntime.Cuda
