import PtoRuntime.Lib.Roster
import PtoRuntime.Cuda.Executor

/-!
# Persistent CUDA executor — what is true of every task

A task is in one place at a time: not ready, on its way into the ready queue, there, with a worker,
on its way into the completion queue, there, with a scheduler block, counted. The history field
`phase` says which. This module relates it to the memory that the blocks share and to the place in
the program where each block is, for an arbitrary task table: no graph is assumed, counters may be
wrong, dependents may be out of range.

The only assumption is `Launch.Fits`: the three sums that could wrap around do not.

Main results: `Ledger`, `Inits`, `Tickets`, `Inv.reach`.
-/

namespace PtoRuntime.Cuda

open Lib

/-- Sums of 32-bit numbers that stay below 2^32. -/
structure Launch.Fits (c : Launch) : Prop where
  scan : c.taskCount + c.schedulers ≤ 2 ^ 32
  heads : c.taskCount + c.workerBlocks < 2 ^ 32
  -- a range that ends behind the table is an error, whatever its sum
  ranges : ∀ t < c.taskCount,
    (c.tasks t).dependentBegin + (c.tasks t).dependentCount ≤ 2 ^ 32 ∨
      c.dependentCount < (c.tasks t).dependentBegin + (c.tasks t).dependentCount

namespace Phase

/-- Phases in the order in which a task goes through them. -/
def rank : Phase → Nat
  | .unready => 0
  | .pushing _ => 1
  | .queued => 2
  | .running _ => 3
  | .reporting _ => 4
  | .finished => 5
  | .processing _ => 6
  | .completed => 7

attribute [simp] rank

/-- The block that has the task in hand. -/
def owner : Phase → Option Act
  | .pushing b | .processing b => some (.sched b)
  | .running w | .reporting w => some (.work w)
  | .unready | .queued | .finished | .completed => none

end Phase

def Event.Happened (phase : Nat → Phase) : Event → Prop
  | .start t => 3 ≤ (phase t).rank
  | .finish t => 4 ≤ (phase t).rank

namespace SchedPc

/-- The block is not counted by `scheduler_init_count` yet. -/
def initialising : SchedPc → Bool
  | .init _ | .initError _ | .push _ (.init _) | .initCount => true
  | _ => false

/-- The index of the initial scan. -/
def cursor? : SchedPc → Option Nat
  | .init idx | .initError idx | .push _ (.init idx) => some idx
  | _ => none

end SchedPc

/-- The ready ticket that a worker has drawn and not used. -/
def WorkPc.drawn? : WorkPc → Option Nat
  | .wait i | .error i | .take i => some i
  | _ => none

/-! ## Invariants -/

structure Ledger (c : Dag) (s : State) : Prop where
  zero : ∀ t, s.phase t ≠ .unready → t < c.taskCount ∧ s.fanin t = 0
  pushed : Roster (fun t => 2 ≤ (s.phase t).rank) s.pushed
  reported : Roster (fun t => 5 ≤ (s.phase t).rank) s.reported
  counted : Roster (fun t => 7 ≤ (s.phase t).rank) s.counted
  log : Roster (Event.Happened s.phase) s.log
  ready : s.ready.Carries c.queueCapacity s.pushed
  completion : s.completion.Carries c.queueCapacity s.reported
  unclaimed : ∀ (i t : Nat), s.completion.head ≤ i → s.reported[i]? = some t →
    s.phase t = .finished
  fanin : ∀ t, s.fanin t + (s.decs t).length = c.fanin t
  finished : ∀ t, ∀ u ∈ s.decs t, .finish u ∈ s.log
  order : ∀ t l₁ l₂, s.log = l₁ ++ .start t :: l₂ → ∀ u ∈ s.decs t, .finish u ∈ l₁
  completedCount : s.completedCount = s.counted.length

/-- The task's range is inside the table, and without an error so far the task has been taken off
the fanin of its first `idx` dependents. -/
def Passed (c : Dag) (s : State) (u idx : Nat) : Prop :=
  (c.tasks u).dependentBegin + (c.tasks u).dependentCount ≤ c.dependentCount ∧
    (s.errorCount = 0 → ∀ k < idx, u ∈ s.decs (c.dependentId u k))

/-- Without an error, counted tasks have been taken off all their dependents. -/
def Clean (c : Dag) (s : State) : Prop :=
  ∀ u ∈ s.counted, Passed c s u (c.tasks u).dependentCount

structure Inits (c : Dag) (s : State) : Prop where
  inited : Roster (fun b => b < c.schedulers ∧ (s.sched b).initialising = false) s.inited
  count : s.initCount = s.inited.length
  untouched : ∀ b < c.schedulers, (s.sched b).initialising = true → s.fanin = c.fanin
  cursor : ∀ t, c.fanin t = 0 → s.phase t ≠ .unready →
    ∀ idx, (s.sched (t % c.schedulers)).cursor? = some idx → t < idx

structure Tickets (c : Dag) (s : State) : Prop where
  held : ∀ w < c.workerBlocks, ∀ i : Nat, (s.work w).drawn? = some i →
    i < s.ready.head ∧ i < c.taskCount ∧ ∀ t, s.pushed[i]? = some t → s.phase t = .queued
  distinct : ∀ v < c.workerBlocks, ∀ w < c.workerBlocks, ∀ i : Nat,
    (s.work v).drawn? = some i → (s.work w).drawn? = some i → v = w
  undrawn : ∀ (i t : Nat), s.ready.head ≤ i → s.pushed[i]? = some t → s.phase t = .queued
  returned : s.returned.Nodup
  gone : ∀ w ∈ s.returned, w < c.workerBlocks ∧ s.work w = .done
  head : s.ready.head ≤ c.taskCount + s.returned.length

/-- All scheduler blocks are through their initial scan. -/
def AllInited (c : Dag) (s : State) : Prop := c.schedulers ≤ s.initCount

/-- The block is at dependent `idx` of a completed task. -/
structure Handling (c : Dag) (s : State) (b u idx : Nat) : Prop where
  inited : AllInited c s
  phase : s.phase u = .processing b
  passed : Passed c s u idx

def PushOk (s : State) (b : Nat) : PushPc → Prop
  | .ticket t => s.phase t = .pushing b
  | .wait t i | .publish t i => s.pushed[i]? = some t

def ReturnOk (c : Dag) (s : State) (b : Nat) : PushReturn → Prop
  | .init idx => idx % c.schedulers = b
  | .dependent u idx => Handling c s b u idx

/-- The block has the completion ticket, which is that of a task. -/
def Claimed (s : State) (b i : Nat) : Prop :=
  ∃ u, s.reported[i]? = some u ∧ s.phase u = .processing b

def PopOk (c : Dag) (s : State) (b : Nat) : PopPc → Prop
  | .head | .tail _ => AllInited c s
  | .cas head => AllInited c s ∧ head < s.reported.length
  | .wait i | .error i => AllInited c s ∧ Claimed s b i
  | .take i =>
    AllInited c s ∧ Claimed s b i ∧ s.completion.Wrote c.queueCapacity s.reported i

/-- What a scheduler block may rely on, by the place where it is. -/
def SchedOk (c : Dag) (s : State) (b : Nat) : SchedPc → Prop
  | .init idx => idx % c.schedulers = b
  | .initError idx => idx % c.schedulers = b ∧ idx < c.taskCount
  | .push pc k => PushOk s b pc ∧ ReturnOk c s b k
  | .initCount | .barrier | .barrierError => True
  | .checkTail | .tailError | .loopCount | .loop | .loopError => AllInited c s ∨ s.errorCount ≠ 0
  | .done => c.taskCount ≤ s.completedCount ∨ s.errorCount ≠ 0
  | .pop _ pc => PopOk c s b pc
  | .process u | .rangeError u => AllInited c s ∧ s.phase u = .processing b
  | .dependent u idx | .dependentError _ u idx => Handling c s b u idx
  | .readFanin u idx => Handling c s b u idx ∧ c.dependentId u idx < c.taskCount
  | .casFanin u idx old =>
    Handling c s b u idx ∧ c.dependentId u idx < c.taskCount ∧ old ≠ 0
  | .processedCount u | .processedByBlock u | .completedCount u =>
    Handling c s b u (c.tasks u).dependentCount
  | .published _ | .finished .. | .claimed .. | .completed .. | .scan _ | .cycleError _ =>
    AllInited c s

def WorkOk (c : Dag) (s : State) (w : Nat) : WorkPc → Prop
  | .take i => s.ready.Wrote c.queueCapacity s.pushed i
  | .run t | .fail t => s.phase t = .running w
  | .report (.ticket t) => s.phase t = .reporting w
  | .report (.wait t i) | .report (.publish t i) => s.reported[i]? = some t
  | .ticket | .wait _ | .error _ | .done => True

structure Inv (c : Dag) (s : State) : Prop where
  ledger : Ledger c s
  clean : Clean c s
  inits : Inits c s
  tickets : Tickets c s
  sched : ∀ b < c.schedulers, SchedOk c s b (s.sched b)
  work : ∀ w < c.workerBlocks, WorkOk c s w (s.work w)

/-! ## Steps of other blocks -/

/-- What a step of block `o` leaves to the others. -/
structure Later (c : Dag) (o : Act) (s s' : State) : Prop where
  pushed : ∀ i t : Nat, s.pushed[i]? = some t → s'.pushed[i]? = some t
  reported : ∀ i t : Nat, s.reported[i]? = some t → s'.reported[i]? = some t
  readyCell : ∀ i, s.ready.Wrote c.queueCapacity s.pushed i →
    s'.ready.Wrote c.queueCapacity s'.pushed i
  completionCell : ∀ i, s.completion.Wrote c.queueCapacity s.reported i →
    s'.completion.Wrote c.queueCapacity s'.reported i
  owned : ∀ t o', o' ≠ o → (s.phase t).owner = some o' → s'.phase t = s.phase t
  inits : s.initCount ≤ s'.initCount
  error : s'.errorCount = 0 → s.errorCount = 0
  decs : ∀ t, ∀ u ∈ s.decs t, u ∈ s'.decs t
  completed : s.completedCount ≤ s'.completedCount

section Later

variable {c : Dag} {o : Act} {s s' : State} {b u w idx : Nat}

theorem Later.refl (s : State) : Later c o s s :=
  ⟨fun _ _ => id, fun _ _ => id, fun _ => id, fun _ => id, fun _ _ _ _ => rfl, le_rfl, id,
    fun _ _ => id, le_rfl⟩

theorem AllInited.later (h : AllInited c s) (hl : Later c o s s') : AllInited c s' :=
  le_trans h hl.inits

/-- Decrements are not taken back. -/
theorem Passed.later (h : Passed c s u idx) (hl : Later c o s s') : Passed c s' u idx :=
  ⟨h.1, fun he k hk => hl.decs _ u (h.2 (hl.error he) k hk)⟩

theorem processing_later (hl : Later c o s s') (hne : .sched b ≠ o)
    (h : s.phase u = .processing b) :
    s'.phase u = .processing b := by
  rw [hl.owned u (.sched b) hne (by rw [h]; rfl)]
  exact h

/-- Others leave the task to the block. -/
theorem Handling.later (h : Handling c s b u idx) (hl : Later c o s s') (hne : .sched b ≠ o) :
    Handling c s' b u idx :=
  ⟨h.inited.later hl, processing_later hl hne h.phase, h.passed.later hl⟩

theorem Claimed.later {i : Nat} (h : Claimed s b i) (hl : Later c o s s') (hne : .sched b ≠ o) :
    Claimed s' b i := by
  obtain ⟨u, hu, hph⟩ := h
  exact ⟨u, hl.reported i u hu, processing_later hl hne hph⟩

theorem PopOk.later {pc : PopPc} (h : PopOk c s b pc) (hl : Later c o s s') (hne : .sched b ≠ o) :
    PopOk c s' b pc := by
  cases pc with
  | head => exact AllInited.later h hl
  | tail => exact AllInited.later h hl
  | cas head =>
    refine ⟨h.1.later hl, ?_⟩
    exact (List.getElem?_eq_some_iff.mp (hl.reported head _ (List.getElem?_eq_getElem h.2))).1
  | wait | error => exact ⟨h.1.later hl, h.2.later hl hne⟩
  | take => exact ⟨h.1.later hl, h.2.1.later hl hne, hl.completionCell _ h.2.2⟩

theorem PushOk.later {pc : PushPc} (h : PushOk s b pc) (hl : Later c o s s') (hne : .sched b ≠ o) :
    PushOk s' b pc := by
  cases pc with
  | ticket t =>
    show s'.phase t = _
    rw [hl.owned t (.sched b) hne (by rw [show s.phase t = _ from h]; rfl)]
    exact h
  | wait | publish => exact hl.pushed _ _ h

theorem ReturnOk.later {k : PushReturn} (h : ReturnOk c s b k) (hl : Later c o s s')
    (hne : .sched b ≠ o) : ReturnOk c s' b k := by
  cases k with
  | init => exact h
  | dependent => exact Handling.later h hl hne

theorem SchedOk.later {pc : SchedPc} (h : SchedOk c s b pc) (hl : Later c o s s')
    (hne : .sched b ≠ o) : SchedOk c s' b pc := by
  cases pc with
  | init | initError | initCount | barrier | barrierError => exact h
  | push => exact ⟨h.1.later hl hne, h.2.later hl hne⟩
  | checkTail | tailError | loopCount | loop | loopError =>
    exact h.imp (AllInited.later · hl) fun he he' => he (hl.error he')
  | done => exact h.imp (le_trans · hl.completed) fun he he' => he (hl.error he')
  | pop => exact PopOk.later h hl hne
  | process | rangeError => exact ⟨h.1.later hl, processing_later hl hne h.2⟩
  | dependent | dependentError | processedCount | processedByBlock | completedCount =>
    exact Handling.later h hl hne
  | readFanin | casFanin => exact ⟨h.1.later hl hne, h.2⟩
  | _ => exact AllInited.later h hl

theorem WorkOk.later {pc : WorkPc} (h : WorkOk c s w pc) (hl : Later c o s s')
    (hne : .work w ≠ o) : WorkOk c s' w pc := by
  have hphase (t : Nat) (p : Phase) (hp : p.owner = some (.work w)) (ht : s.phase t = p) :
      s'.phase t = p := by
    rw [hl.owned t (.work w) hne (by rw [ht]; exact hp)]
    exact ht
  cases pc with
  | take => exact hl.readyCell _ h
  | run | fail => exact hphase _ _ rfl h
  | report pc =>
    cases pc with
    | ticket => exact hphase _ _ rfl h
    | wait | publish => exact hl.reported _ _ h
  | ticket | wait | error | done => trivial

end Later

end PtoRuntime.Cuda
