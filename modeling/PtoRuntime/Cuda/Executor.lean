import PtoRuntime.Lib.Reach
import PtoRuntime.Lib.TicketQueue

/-!
# Persistent CUDA executor — the scheduler and worker blocks

One launch of `pto_persistent_dag_f32_executor`: the first blocks of the grid run the scheduler, the
others run tasks. They meet in two ticket queues (ready tasks, completions), the fanin counters and
a few counters. A block acts through its thread 0; every atomic operation is a step, and so is every
plain read of a counter that others write. The plain store to a queue cell goes with the exchange of
its flag, which publishes it.

Counters of the source are 32 bits wide. Three sums can leave that range and wrap around in the
model as they do there: the index of the initial scan, the head of the ready queue and the index
into `dependents`. The others count tasks, blocks or tickets, of which every task draws two.

The history fields record what happened to each task and are not read by any step.
-/

namespace PtoRuntime.Cuda

open Lib Function

/-! ## Types -/

/-- The fields of `PtoCudaPersistentDagTask` that the executor itself reads. -/
structure Task where
  funcId : Nat
  dependentBegin : Nat
  dependentCount : Nat
  initialFanin : Nat
  deriving DecidableEq, Repr

/-- What the host passes: `PtoCudaPersistentDagState` before the launch and the grid. -/
structure Launch where
  tasks : Nat → Task
  taskCount : Nat
  dependents : Nat → Nat
  dependentCount : Nat
  /-- the counters as the host has set them -/
  fanin : Nat → Nat
  queueCapacity : Nat
  schedulerBlocks : Nat
  workerBlocks : Nat
  /-- function ids with a case in `pto_dag_dispatch` -/
  known : Nat → Bool

/-- A launch whose queues have a cell for every task. -/
structure Dag extends Launch where
  roomy : taskCount ≤ queueCapacity
  word : queueCapacity < 2 ^ 32

instance : Coe Dag Launch := ⟨Dag.toLaunch⟩

/-- Inside `pto_dag_push_ready` or `pto_dag_push_completion`. -/
inductive PushPc
  | ticket (task : Nat)
  | wait (task ticket : Nat)
  | publish (task ticket : Nat)
  deriving DecidableEq, Repr

/-- Inside `pto_dag_try_pop_completion`. -/
inductive PopPc
  | head
  | tail (head : Nat)
  | cas (head : Nat)
  | wait (ticket : Nat)
  | error (ticket : Nat)
  | take (ticket : Nat)
  deriving DecidableEq, Repr

/-- Where `pto_dag_push_ready` returns to. -/
inductive PushReturn
  /-- the initial scan, at its next index -/
  | init (idx : Nat)
  /-- `pto_dag_process_completion(task)`, at its next dependent -/
  | dependent (task idx : Nat)
  deriving DecidableEq, Repr

inductive SchedPc
  | init (idx : Nat)
  | initError (idx : Nat)
  | push (pc : PushPc) (k : PushReturn)
  | initCount
  | barrier
  | barrierError
  | checkTail
  | tailError
  | loopCount
  | loop
  | loopError
  /-- `late` is block 0's second attempt -/
  | pop (late : Bool) (pc : PopPc)
  | process (task : Nat)
  | rangeError (task : Nat)
  | dependent (task idx : Nat)
  | dependentError (code task idx : Nat)
  | readFanin (task idx : Nat)
  | casFanin (task idx old : Nat)
  | processedCount (task : Nat)
  | processedByBlock (task : Nat)
  | completedCount (task : Nat)
  /-- block 0 reads its four counters; `second` is the repetition after the late pop -/
  | published (second : Bool)
  | finished (second : Bool) (published : Nat)
  | claimed (second : Bool) (published finished : Nat)
  | completed (second : Bool) (published finished claimed : Nat)
  | scan (idx : Nat)
  | cycleError (idx : Nat)
  | done
  deriving DecidableEq, Repr

inductive WorkPc
  | ticket
  | wait (ticket : Nat)
  | error (ticket : Nat)
  | take (ticket : Nat)
  | run (task : Nat)
  | fail (task : Nat)
  | report (pc : PushPc)
  | done
  deriving DecidableEq, Repr

/-- History: where a task is, and with which block. -/
inductive Phase
  | unready
  | pushing (block : Nat)
  | queued
  | running (block : Nat)
  | reporting (block : Nat)
  | finished
  | processing (block : Nat)
  | completed
  deriving DecidableEq, Repr

inductive Event
  | start (task : Nat)
  | finish (task : Nat)
  deriving DecidableEq, Repr

structure State where
  ready : TicketQueue Nat
  completion : TicketQueue Nat
  fanin : Nat → Nat
  completedCount : Nat
  errorCount : Nat
  errorCode : Nat
  errorTaskId : Nat
  initCount : Nat
  loopCount : Nat
  processedCount : Nat
  processedByBlock : Nat → Nat
  sched : Nat → SchedPc
  work : Nat → WorkPc
  /-- history -/
  phase : Nat → Phase
  /-- history: tasks in the order of their ready tickets -/
  pushed : List Nat
  /-- history: tasks in the order of their completion tickets -/
  reported : List Nat
  /-- history: tasks in the order in which `completed_count` counted them -/
  counted : List Nat
  /-- history: the tasks whose completion took one off a task's fanin -/
  decs : Nat → List Nat
  /-- history: blocks that `scheduler_init_count` counts -/
  inited : List Nat
  /-- history: worker blocks that drew a ticket beyond the last task -/
  returned : List Nat
  log : List Event

inductive Act
  | sched (b : Nat)
  | work (w : Nat)
  deriving DecidableEq, Repr

/-! ## The launch -/

namespace Launch

/-- `scheduler_blocks` of the kernel. -/
def schedulers (c : Launch) : Nat := if c.schedulerBlocks = 0 then 1 else c.schedulerBlocks

/-- `idx += scheduler_blocks`. -/
def nextIdx (c : Launch) (idx : Nat) : Nat := (idx + c.schedulers) % 2 ^ 32

/-- `state->dependents[task.dependent_begin + idx]`. -/
def dependentId (c : Launch) (task idx : Nat) : Nat :=
  c.dependents (((c.tasks task).dependentBegin + idx) % 2 ^ 32)

/-- `duplicate_dependent`. -/
def duplicate (c : Launch) (task idx : Nat) : Bool :=
  (List.range idx).any fun prev => c.dependentId task prev = c.dependentId task idx

end Launch

/-! ## Steps -/

/-- Behind the barrier: block 0 looks at the queue. -/
def afterBarrier (c : Launch) (b : Nat) : SchedPc :=
  if b = 0 ∧ c.taskCount ≠ 0 then .checkTail else .loopCount

/-- `pto_dag_try_pop_completion` returned false. -/
def popFailed (b : Nat) (late : Bool) : SchedPc :=
  if late then .published true else if b = 0 then .published false else .loop

def PushReturn.pc : PushReturn → SchedPc
  | .init idx => .init idx
  | .dependent task idx => .dependent task idx

namespace State

def init (c : Launch) : State where
  ready := .fresh fun _ => 0
  completion := .fresh fun _ => 0
  fanin := c.fanin
  completedCount := 0
  errorCount := 0
  errorCode := 0
  errorTaskId := 0
  initCount := 0
  loopCount := 0
  processedCount := 0
  processedByBlock := fun _ => 0
  sched := fun b => .init b
  work := fun _ => .ticket
  phase := fun _ => .unready
  pushed := []
  reported := []
  counted := []
  decs := fun _ => []
  inited := []
  returned := []
  log := []

def setSched (s : State) (b : Nat) (pc : SchedPc) : State :=
  { s with sched := update s.sched b pc }

def setWork (s : State) (w : Nat) (pc : WorkPc) : State :=
  { s with work := update s.work w pc }

def setPhase (s : State) (t : Nat) (p : Phase) : State :=
  { s with phase := update s.phase t p }

/-- `pto_dag_record_error`. -/
def recordError (s : State) (code task : Nat) : State :=
  if s.errorCount = 0 then { s with errorCount := 1, errorCode := code, errorTaskId := task } else s

/-- A ready ticket is drawn for the task. -/
def drawReady (s : State) (t : Nat) : State :=
  { s.setPhase t .queued with ready := s.ready.draw, pushed := s.pushed ++ [t] }

def publishReady (s : State) (c : Launch) (t ticket : Nat) : State :=
  { s with ready := s.ready.publish c.queueCapacity ticket t }

/-- A worker takes the task out of its cell and starts it. -/
def startTask (s : State) (c : Launch) (w t ticket : Nat) : State :=
  { s.setPhase t (.running w) with
    ready := s.ready.clear c.queueCapacity ticket
    log := s.log ++ [.start t] }

def finishTask (s : State) (w t : Nat) : State :=
  { s.setPhase t (.reporting w) with log := s.log ++ [.finish t] }

/-- A completion ticket is drawn for the task. -/
def drawCompletion (s : State) (t : Nat) : State :=
  { s.setPhase t .finished with completion := s.completion.draw, reported := s.reported ++ [t] }

def publishCompletion (s : State) (c : Launch) (t ticket : Nat) : State :=
  { s with completion := s.completion.publish c.queueCapacity ticket t }

/-- The `atomicCAS` on `completion_head` succeeds: the ticket is the block's. -/
def claim (s : State) (b head : Nat) : State :=
  { s with
    completion := { s.completion with head := head + 1 }
    phase := match s.reported[head]? with
      | some t => update s.phase t (.processing b)
      | none => s.phase }

/-- The `atomicCAS` on the fanin succeeds. -/
def decrement (s : State) (b task d old : Nat) : State :=
  { s with
    fanin := update s.fanin d (old - 1)
    decs := update s.decs d (s.decs d ++ [task])
    phase := if old = 1 then update s.phase d (.pushing b) else s.phase }

def countCompleted (s : State) (t : Nat) : State :=
  { s.setPhase t .completed with
    completedCount := s.completedCount + 1
    counted := s.counted ++ [t] }

def countInit (s : State) (b : Nat) : State :=
  { s with initCount := s.initCount + 1, inited := s.inited ++ [b] }

def pushStep (c : Launch) (s : State) (b : Nat) (k : PushReturn) : PushPc → Option State
  | .ticket t => some ((s.drawReady t).setSched b (.push (.wait t s.ready.tail) k))
  | .wait t i =>
    -- spins until the cell is free
    if s.ready.flags (i % c.queueCapacity) = 0 then some (s.setSched b (.push (.publish t i) k))
    else none
  | .publish t i => some ((s.publishReady c t i).setSched b k.pc)

def popStep (c : Launch) (s : State) (b : Nat) (late : Bool) : PopPc → Option State
  | .head => some (s.setSched b (.pop late (.tail s.completion.head)))
  | .tail head =>
    if c.taskCount ≤ head ∨ s.completion.tail ≤ head then some (s.setSched b (popFailed b late))
    else some (s.setSched b (.pop late (.cas head)))
  | .cas head =>
    if s.completion.head = head then some ((s.claim b head).setSched b (.pop late (.wait head)))
    else some (s.setSched b (.pop late .head))
  | .wait i =>
    if s.completion.flags (i % c.queueCapacity) = i + 1 then
      some (s.setSched b (.pop late (.take i)))
    else some (s.setSched b (.pop late (.error i)))
  | .error i =>
    if s.errorCount ≠ 0 then some (s.setSched b (popFailed b late))
    else some (s.setSched b (.pop late (.wait i)))
  | .take i =>
    some ({ s with completion := s.completion.clear c.queueCapacity i }.setSched b
      (.process (s.completion.cells (i % c.queueCapacity))))

/-- The next step of scheduler block `b`. -/
def schedStep (c : Launch) (s : State) (b : Nat) : Option State :=
  match s.sched b with
  | .init idx =>
    if idx < c.taskCount then
      if s.fanin idx ≠ (c.tasks idx).initialFanin then some (s.setSched b (.initError idx))
      else if (c.tasks idx).initialFanin = 0 then
        some ((s.setPhase idx (.pushing b)).setSched b
          (.push (.ticket idx) (.init (c.nextIdx idx))))
      else some (s.setSched b (.init (c.nextIdx idx)))
    else some (s.setSched b .initCount)
  | .initError idx => some ((s.recordError 5 idx).setSched b (.init (c.nextIdx idx)))
  | .push pc k => s.pushStep c b k pc
  | .initCount => some ((s.countInit b).setSched b .barrier)
  | .barrier =>
    if s.initCount < c.schedulers then some (s.setSched b .barrierError)
    else some (s.setSched b (afterBarrier c b))
  | .barrierError =>
    if s.errorCount = 0 then some (s.setSched b .barrier)
    else some (s.setSched b (afterBarrier c b))
  | .checkTail =>
    if s.ready.tail = 0 then some (s.setSched b .tailError) else some (s.setSched b .loopCount)
  | .tailError => some ((s.recordError 6 0).setSched b .loopCount)
  | .loopCount => some ({ s with loopCount := s.loopCount + 1 }.setSched b .loop)
  | .loop =>
    if s.completedCount < c.taskCount then some (s.setSched b .loopError)
    else some (s.setSched b .done)
  | .loopError =>
    if s.errorCount = 0 then some (s.setSched b (.pop false .head)) else some (s.setSched b .done)
  | .pop late pc => s.popStep c b late pc
  | .process u =>
    if c.dependentCount < (c.tasks u).dependentBegin + (c.tasks u).dependentCount then
      some (s.setSched b (.rangeError u))
    else some (s.setSched b (.dependent u 0))
  | .rangeError u => some ((s.recordError 3 u).setSched b .loop)
  | .dependent u idx =>
    if idx < (c.tasks u).dependentCount then
      if c.taskCount ≤ c.dependentId u idx then some (s.setSched b (.dependentError 2 u idx))
      else if c.dependentId u idx = u then some (s.setSched b (.dependentError 9 u idx))
      else if c.duplicate u idx then some (s.setSched b (.dependentError 8 u idx))
      else some (s.setSched b (.readFanin u idx))
    else some (s.setSched b (.processedCount u))
  | .dependentError code u idx =>
    some ((s.recordError code (c.dependentId u idx)).setSched b (.dependent u (idx + 1)))
  | .readFanin u idx =>
    if s.fanin (c.dependentId u idx) = 0 then some (s.setSched b (.dependentError 4 u idx))
    else some (s.setSched b (.casFanin u idx (s.fanin (c.dependentId u idx))))
  | .casFanin u idx old =>
    if s.fanin (c.dependentId u idx) = old then
      some ((s.decrement b u (c.dependentId u idx) old).setSched b
        (if old = 1 then .push (.ticket (c.dependentId u idx)) (.dependent u (idx + 1))
          else .dependent u (idx + 1)))
    else some (s.setSched b (.readFanin u idx))
  | .processedCount u =>
    some ({ s with processedCount := s.processedCount + 1 }.setSched b (.processedByBlock u))
  | .processedByBlock u =>
    some ({ s with
      processedByBlock := if b < c.schedulerBlocks then
          update s.processedByBlock b (s.processedByBlock b + 1)
        else s.processedByBlock }.setSched b (.completedCount u))
  | .completedCount u => some ((s.countCompleted u).setSched b .loop)
  | .published second => some (s.setSched b (.finished second s.ready.tail))
  | .finished second published =>
    some (s.setSched b (.claimed second published s.completion.tail))
  | .claimed second published finished =>
    some (s.setSched b (.completed second published finished s.completion.head))
  | .completed second published finished claimed =>
    if published = finished ∧ claimed = s.completedCount ∧ s.completedCount < c.taskCount then
      some (s.setSched b (if second then .scan 0 else .pop true .head))
    else some (s.setSched b .loop)
  | .scan idx =>
    -- `pto_dag_first_unready_task`
    if idx < c.taskCount then
      if s.fanin idx ≠ 0 then some (s.setSched b (.cycleError idx))
      else some (s.setSched b (.scan (idx + 1)))
    else some (s.setSched b .loop)
  | .cycleError idx => some ((s.recordError 7 idx).setSched b .done)
  | .done => none

def reportStep (c : Launch) (s : State) (w : Nat) : PushPc → Option State
  | .ticket t => some ((s.drawCompletion t).setWork w (.report (.wait t s.completion.tail)))
  | .wait t i =>
    if s.completion.flags (i % c.queueCapacity) = 0 then
      some (s.setWork w (.report (.publish t i)))
    else none
  | .publish t i => some ((s.publishCompletion c t i).setWork w .ticket)

/-- The next step of worker block `w`. -/
def workStep (c : Launch) (s : State) (w : Nat) : Option State :=
  match s.work w with
  | .ticket =>
    let i := s.ready.head
    let ready := { s.ready with head := (i + 1) % 2 ^ 32 }
    if c.taskCount ≤ i then
      some ({ s with ready := ready, returned := s.returned ++ [w] }.setWork w .done)
    else some ({ s with ready := ready }.setWork w (.wait i))
  | .wait i =>
    if s.ready.flags (i % c.queueCapacity) = i + 1 then some (s.setWork w (.take i))
    else some (s.setWork w (.error i))
  | .error i =>
    if s.errorCount ≠ 0 then some (s.setWork w .done) else some (s.setWork w (.wait i))
  | .take i =>
    some ((s.startTask c w (s.ready.cells (i % c.queueCapacity)) i).setWork w
      (.run (s.ready.cells (i % c.queueCapacity))))
  | .run t =>
    if c.known (c.tasks t).funcId then
      some ((s.finishTask w t).setWork w (.report (.ticket t)))
    else some (s.setWork w (.fail t))
  | .fail t => some ((s.recordError 1 t).setWork w .ticket)
  | .report pc => s.reportStep c w pc
  | .done => none

/-- One step of one block of the grid. -/
def step (c : Launch) (s : State) : Act → Option State
  | .sched b => if b < c.schedulers then s.schedStep c b else none
  | .work w => if w < c.workerBlocks then s.workStep c w else none

end State

end PtoRuntime.Cuda
