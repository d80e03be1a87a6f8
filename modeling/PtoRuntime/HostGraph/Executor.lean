import PtoRuntime.HostGraph.Graph
import PtoRuntime.Lib.Reach

/-!
# The executor of the host-built runtime

Up to four AICPU threads work the graph off. Every core belongs to one thread; a core is handed a
task by writing its id to a register, and reports in another register (`COND`) that it has picked
the task up and that it has finished it. To keep the core busy a thread hands out the next task as
soon as the last one is picked up, so a core has two slots, `running` and `pending`.

A thread walks over its cores, works out from one sample of `COND` which of the two tasks are done,
counts them, counts down the `fanin` of their successors, and puts what becomes ready into its own
queue; if that has reached the number of cores a thread may have, into a queue shared by all. At the
end of each round it fills its own queue from the shared one.

Everything that a thread shares with others is a step of its own: the sample of `COND`, the write of
the register, each atomic counter, and each section under the lock of a shared queue. What follows
from a sample is a list of operations (`Op`) which the thread works off before it goes on. The
queues, rings in the source, are lists; `refit` is what is visible of the ring.
-/

namespace PtoRuntime.HostGraph

open Function List

def maxAicpuThreads : Nat := 4
def maxCoresPerThread : Nat := 72
def maxIdleIterations : Nat := 50000000
def maxVerificationWarnings : Nat := 10

/-- A launch that `init` and `handshake_all_cores` accept. -/
structure Config where
  /-- `sche_cpu_num` -/
  threadNum : Nat
  /-- what the workers report, in the order of their ids -/
  coreTypes : List CoreType
  calls : List BuildCall
  pmuActive : Bool
  threads_pos : 1 ≤ threadNum
  threads_le : threadNum ≤ maxAicpuThreads
  cores_pos : coreTypes ≠ []
  cores_le : coreTypes.length ≤ maxCoresPerThread

namespace Config

def runtime (c : Config) : Runtime := build c.calls

/-- `total_tasks_` -/
def taskCount (c : Config) : Nat := c.runtime.nextTaskId

def coresTotalNum (c : Config) : Nat := c.coreTypes.length

def typeOf (c : Config) (core : Nat) : CoreType := c.coreTypes.getD core .aic

/-- `aic_cores_` and `aiv_cores_`. -/
def coresOf (c : Config) (type : CoreType) : List Nat :=
  (range c.coresTotalNum).filter fun core => c.typeOf core = type

/-- `aic_per_thread_` and `aiv_per_thread_`: rounded up. -/
def perThread (c : Config) (type : CoreType) : Nat :=
  ((c.coresOf type).length + c.threadNum - 1) / c.threadNum

/-- The cores of a type at the positions `t`, `t + thread_num_`, `t + 2 * thread_num_`, …. -/
def assigned (c : Config) (t : Nat) (type : CoreType) : List Nat :=
  ((range (c.coresOf type).length).filter fun i => i % c.threadNum = t).map
    fun i => (c.coresOf type).getD i 0

def coreAssignments (c : Config) (t : Nat) : List Nat := c.assigned t .aic ++ c.assigned t .aiv

end Config

/-! ## Initial distribution -/

/-- The queues while `classify_and_distribute_initial_tasks` fills them. -/
structure Queues where
  own : Nat → CoreType → List Nat
  shared : CoreType → List Nat
  /-- `next_aic_thread` and `next_aiv_thread` -/
  next : CoreType → Nat

def Queues.empty : Queues where
  own _ _ := []
  shared _ := []
  next _ := 0

/-- The size of a local ring is taken from the distance of its ends: when it is full they meet. -/
def refit (queue : List Nat) : List Nat :=
  if queue.length = maxCoresPerThread then [] else queue

def Queues.enqueueInitialTask (c : Config) (q : Queues) (task : Nat) (type : CoreType) : Queues :=
  let t := q.next type
  let next := update q.next type ((t + 1) % c.threadNum)
  if (q.own t type).length < c.perThread type then
    { q with
      own := update q.own t
        (update (q.own t) type (refit (q.own t type ++ [task])))
      next := next }
  else
    { q with shared := update q.shared type (q.shared type ++ [task]), next := next }

def Queues.classify (c : Config) (q : Queues) (task : Nat) : Queues :=
  if c.runtime.fanin task = 0 then q.enqueueInitialTask c task (c.runtime.coreType task) else q

def classifyAndDistributeInitialTasks (c : Config) : Queues :=
  (range c.taskCount).foldl (Queues.classify c) .empty

/-! ## State -/

/-- `TASK_ACK_STATE` and `TASK_FIN_STATE`. -/
inductive RegState
  | ack
  | fin
  deriving DecidableEq, Repr

/-- A core, and the two slots its thread keeps for it. -/
structure Core where
  pending : Option Nat
  running : Option Nat
  /-- `DATA_MAIN_BASE`, until the core has picked the id up -/
  data : Option Nat
  executing : Option Nat
  /-- `COND`; `none` is the idle value -/
  cond : Option (Nat × RegState)

/-- What a thread still has to do for the core it looks at. -/
inductive Op
  /-- `completed_tasks_.fetch_add(1)` -/
  | count (task : Nat)
  /-- the attempt to dispatch before dependencies are resolved -/
  | early (core : Nat)
  /-- `dep->fanin.fetch_sub(1)`, in `resolve_task_dependencies` -/
  | dep (task : Nat)
  /-- push to the shared queue, under its lock -/
  | share (task : Nat)
  /-- case 4 -/
  | issue (core : Nat)
  deriving DecidableEq

inductive Pc
  | poll (cores : List Nat)
  /-- the test whether to fill up the local queue -/
  | refill (type : CoreType)
  /-- the section under the lock of the shared queue -/
  | grab (type : CoreType)
  | check
  | returned
  /-- `return -1` -/
  | failed
  deriving DecidableEq

structure Thread where
  pc : Pc
  ops : List Op
  /-- `cur_ready_queue_aic_` and `cur_ready_queue_aiv_` -/
  queue : CoreType → List Nat
  madeProgress : Bool
  idleIterations : Nat
  warnings : Nat

structure State where
  thread : Nat → Thread
  core : Nat → Core
  fanin : Nat → Int
  shared : CoreType → List Nat
  /-- `completed_tasks_` -/
  completed : Nat
  /-- history: ids written to a core -/
  written : List Nat
  /-- history: tasks a core has executed -/
  finished : List Nat
  /-- history: tasks a poll has found done -/
  settled : List Nat
  /-- history: tasks counted in `completed_tasks_` -/
  counted : List Nat

inductive Act
  | thread (t : Nat)
  | core (core : Nat)
  deriving DecidableEq

/-! ## Operations of a thread -/

namespace State

def init (c : Config) : State where
  thread t :=
    { pc := .poll (c.coreAssignments t), ops := []
      queue := (classifyAndDistributeInitialTasks c).own t
      madeProgress := false, idleIterations := 0, warnings := 0 }
  core _ := { pending := none, running := none, data := none, executing := none, cond := none }
  fanin x := c.runtime.fanin x
  shared := (classifyAndDistributeInitialTasks c).shared
  completed := 0
  written := []
  finished := []
  settled := []
  counted := []

def setThread (s : State) (t : Nat) (th : Thread) : State :=
  { s with thread := update s.thread t th }

def setCore (s : State) (core : Nat) (co : Core) : State :=
  { s with core := update s.core core co }

def push (th : Thread) (type : CoreType) (tasks : List Nat) : Thread :=
  { th with queue := update th.queue type (th.queue type ++ tasks) }

/-- `try_dispatch_task`: the head of the local queue goes to the pending slot and the register. -/
def tryDispatchTask (c : Config) (s : State) (t core : Nat) : State :=
  match (s.thread t).queue (c.typeOf core) with
  | [] => s
  | task :: rest =>
    { (s.setThread t { s.thread t with
          queue := update (s.thread t).queue (c.typeOf core) rest }).setCore core
        { s.core core with pending := some task, data := some task } with
      written := s.written ++ [task] }

/-- `dep->fanin.fetch_sub(1)`, and the push to the local queue if that is where a ready task
goes. -/
def resolveDep (c : Config) (s : State) (t task : Nat) : State :=
  let th := s.thread t
  let type := c.runtime.coreType task
  { s.setThread t
      (if s.fanin task = 1 then
        if (th.queue type).length < c.perThread type then push th type [task]
        else { th with ops := .share task :: th.ops }
      else th) with
    fanin := update s.fanin task (s.fanin task - 1) }

/-- The first operation of the list; `s` is the state without it. -/
def exec (c : Config) (s : State) (t : Nat) : Op → State
  | .count task => { s with completed := s.completed + 1, counted := s.counted ++ [task] }
  | .early core => if (s.core core).pending = none then s.tryDispatchTask c t core else s
  | .dep task => s.resolveDep c t task
  | .share task =>
    let type := c.runtime.coreType task
    { s with shared := update s.shared type (s.shared type ++ [task]) }
  | .issue core =>
    if (s.core core).pending = none ∧ (c.pmuActive = true → (s.core core).running = none) then
      if (s.thread t).queue (c.typeOf core) = [] then s
      else
        let s := s.tryDispatchTask c t core
        s.setThread t { s.thread t with madeProgress := true }
    else s

/-- The fanout loop of `resolve_task_dependencies`. -/
def resolveTaskDependencies (c : Config) (task : Nat) : List Op := (c.runtime.fanout task).map .dep

/-- The old running task, if there is one, was done before the pending one was picked up. -/
def settleOld (c : Config) : Option Nat → List Op
  | none => []
  | some old => .count old :: resolveTaskDependencies c old

/-- One core: the sample of `COND`, the slots, and what is left to do. -/
def poll (c : Config) (s : State) (t core : Nat) : State :=
  let co := s.core core
  let then_ (co' : Core) (settled : List Nat) (ops : List Op) : State :=
    { (s.setCore core co').setThread t
        { s.thread t with ops := ops ++ [.issue core], madeProgress := true } with
      settled := s.settled ++ settled }
  match co.cond with
  | some (task, .fin) =>
    if co.pending = some task then
      -- case 1: the pending task finished directly
      then_ { co with pending := none, running := none } (co.running.toList ++ [task])
        (.count task :: .early core :: settleOld c co.running ++ resolveTaskDependencies c task)
    else if co.running = some task then
      -- case 3: the running task finished
      then_ { co with running := none } [task]
        (.count task :: .early core :: resolveTaskDependencies c task)
    else s.setThread t { s.thread t with ops := [.issue core] }
  | some (task, .ack) =>
    if co.pending = some task then
      -- case 2: the pending task was picked up
      then_ { co with pending := none, running := some task } co.running.toList
        (settleOld c co.running)
    else s.setThread t { s.thread t with ops := [.issue core] }
  | none => s.setThread t { s.thread t with ops := [.issue core] }

/-- Where the round goes after the queue of a type is filled. -/
def afterRefill : CoreType → Pc
  | .aic => .refill .aiv
  | .aiv => .check

def grab (c : Config) (s : State) (t : Nat) (type : CoreType) : State :=
  let toGrab := min (s.shared type).length (c.perThread type)
  { s.setThread t { push (s.thread t) type ((s.shared type).take toGrab) with
      pc := afterRefill type } with
    shared := update s.shared type ((s.shared type).drop toGrab) }

/-- The end of a round: are all tasks counted and the own cores idle, and if not, is it time to
give up? -/
def check (c : Config) (s : State) (t : Nat) : Thread :=
  let th := s.thread t
  let reached := c.taskCount ≤ s.completed
  let idle := ∀ core ∈ c.coreAssignments t,
    (s.core core).pending = none ∧ (s.core core).running = none
  if reached ∧ idle then { th with pc := .returned }
  else if reached ∧ maxVerificationWarnings < th.warnings + 1 then { th with pc := .failed }
  else
    let th := if reached then { th with warnings := th.warnings + 1 } else th
    if th.madeProgress then
      { th with pc := .poll (c.coreAssignments t), idleIterations := 0, madeProgress := false }
    else if maxIdleIterations < th.idleIterations + 1 then { th with pc := .failed }
    else
      { th with pc := .poll (c.coreAssignments t), idleIterations := th.idleIterations + 1 }

/-- A thread that has worked off its operations. -/
def advance (c : Config) (s : State) (t : Nat) : Option State :=
  let th := s.thread t
  match th.pc with
  | .poll [] => some (s.setThread t { th with pc := .refill .aic })
  | .poll (core :: rest) => some ((s.setThread t { th with pc := .poll rest }).poll c t core)
  | .refill type =>
    if th.queue type = [] ∧ s.shared type ≠ [] then
      some (s.setThread t { th with pc := .grab type })
    else some (s.setThread t { th with pc := afterRefill type })
  | .grab type => some (s.grab c t type)
  | .check => some (s.setThread t (s.check c t))
  | .returned | .failed => none

def stepThread (c : Config) (s : State) (t : Nat) : Option State :=
  match (s.thread t).ops with
  | [] => s.advance c t
  | op :: rest => some ((s.setThread t { s.thread t with ops := rest }).exec c t op)

/-- The core picks up the id in its register, or finishes the task it executes. -/
def stepCore (s : State) (core : Nat) : Option State :=
  let co := s.core core
  match co.executing, co.data with
  | some task, _ =>
    some { s.setCore core { co with executing := none, cond := some (task, .fin) } with
      finished := s.finished ++ [task] }
  | none, some task =>
    some (s.setCore core { co with
      executing := some task, data := none, cond := some (task, .ack) })
  | none, none => none

def step (c : Config) (s : State) : Act → Option State
  | .thread t => if t < c.threadNum then s.stepThread c t else none
  | .core core => if core < c.coresTotalNum then s.stepCore core else none

end State

end PtoRuntime.HostGraph
