import PtoRuntime.Hier.TensorMap
import PtoRuntime.Lib.BumpRing

/-!
# Hierarchical runtime — the orchestrator and scheduler threads

`src/common/hierarchical/{orchestrator,scheduler,scope,types}.cpp`. The
orchestrator thread runs `submit_impl`, `alloc`, `scope_begin` and `scope_end`;
the scheduler thread dispatches ready slots and runs `on_task_complete`; workers
finish what was dispatched to them. Every mutex section, atomic load, store,
`fetch_add` and CAS is one step, and the threads interleave freely.

`TaskSlotState` is kept as one function per field. `Ring` numbers slots upwards
and does not reuse a number within a run, so the fields of a slot that was not
handed out yet have the values of `TaskSlotState::reset`; the stores of `reset`
itself touch a slot no other thread knows and are part of the reserving step.
Heap pointers are whatever the allocator returns: the label of the step chooses.

The last fields of the state are history variables. No step reads them.
-/

namespace PtoRuntime.Hier

open Lib Function

inductive TaskState
  | free | pending | ready | running | completed | consumed
  deriving DecidableEq, Repr

inductive WorkerType
  | nextLevel | sub
  deriving DecidableEq, Repr

/-- `MAX_SCOPE_DEPTH`. -/
def maxScopeDepth : Nat := 64

/-- `HEAP_ALIGN`. -/
def heapAlign : Nat := 1024

/-- `align_up` of the size, for a power-of-two alignment. -/
def outputAllocBytes (t : ContinuousTensor) : Nat := alignUp t.nbytes heapAlign

/-- The null OUTPUT tensors, which `reserve_outputs_and_slot` gives a slab. -/
def needsSlab (x : ContinuousTensor × TensorArgType) : Bool :=
  x.2 = .output && x.1.data = 0

/-- Hand slabs out from `base` on; returns the offset after the last one. -/
def carveMember (base : Nat) : Nat → TaskArgs → Nat × TaskArgs
  | off, [] => (off, [])
  | off, x :: xs =>
    if needsSlab x then
      let r := carveMember base (off + outputAllocBytes x.1) xs
      (r.1, ({ x.1 with data := base + off }, x.2) :: r.2)
    else
      let r := carveMember base off xs
      (r.1, x :: r.2)

def carveOutputs (base : Nat) : Nat → List TaskArgs → List TaskArgs
  | _, [] => []
  | off, a :: as =>
    let r := carveMember base off a
    r.2 :: carveOutputs base r.1 as

/-! ## Program counters -/

/-- Positions in `try_consume` / `release_ref` and the `on_consumed` they call. -/
inductive ConsumePc
  | fetchAdd
  | readTotal (released : Nat)
  | loadState
  | cas
  | erase
  | releaseSlab
  | decActive
  deriving DecidableEq, Repr

/-- The stores of `submit_impl` after the last producer is attached. -/
inductive SubmitPc
  | faninCount | faninReleased | fanoutTotal | fanoutReleased | state | push
  deriving DecidableEq, Repr

/-- The stores of `alloc`. -/
inductive AllocPc
  | insert (ptr : Nat)
  | fanin | fanoutTotal | fanoutReleased | state | active
  deriving DecidableEq, Repr

inductive OrchPc
  | idle
  | reserve (workerType : WorkerType) (argsList : List TaskArgs) (affinities : List Int)
  | lookup (slot : Nat) (walk : List (TensorKey × TensorArgType)) (producers : List Nat)
  | insert (slot : Nat) (x : TensorKey × TensorArgType)
      (walk : List (TensorKey × TensorArgType)) (producers : List Nat)
  | attach (slot : Nat) (producers : List Nat) (liveFanins : Nat)
  | submit (slot liveFanins : Nat) (pc : SubmitPc)
  | alloc (slot : Nat) (pc : AllocPc)
  | scopeEnd (tasks : List Nat)
  | release (slot : Nat) (pc : ConsumePc) (tasks : List Nat)
  deriving DecidableEq, Repr

inductive SchedPc
  | idle
  | dispatch (queue : WorkerType) (slot : Nat)
  | storeCompleted (slot : Nat)
  | snapshot (slot : Nat)
  | notify (slot : Nat) (consumers : List Nat)
  | check (slot consumer released : Nat) (consumers : List Nat)
  | casReady (slot consumer : Nat) (consumers : List Nat)
  | push (slot consumer : Nat) (consumers : List Nat)
  | consumeSelf (slot : Nat) (pc : ConsumePc)
  | readProducers (slot : Nat)
  | deferred (slot : Nat) (producers : List Nat)
  | consumeProducer (slot producer : Nat) (pc : ConsumePc) (producers : List Nat)
  deriving DecidableEq, Repr

/-- Where a slot stands in its life: history only. -/
inductive Phase
  | unsubmitted
  | waiting | ready | queued | dispatching | executing | finished
  | completing | completed | returned
  | allocated
  deriving DecidableEq, Repr

/-- Who performs a release of a slot: the slot's own completion, the end of its
scope, or the completion of a consumer. -/
inductive Holder
  | self | scope | consumer (slot : Nat)
  deriving DecidableEq, Repr

structure State where
  -- `TaskSlotState`, by slot
  state : Nat → TaskState
  faninCount : Nat → Nat
  faninReleased : Nat → Nat
  fanoutConsumers : Nat → List Nat
  fanoutTotal : Nat → Nat
  fanoutReleased : Nat → Nat
  outputKeys : Nat → List TensorKey
  faninProducers : Nat → List Nat
  workerType : Nat → WorkerType
  groupSize : Nat → Nat
  subCompleteCount : Nat → Nat
  -- orchestrator, allocator and queues
  nextTaskId : Nat
  tensormap : TensorMap
  scopes : List (List Nat)
  activeTasks : Int
  slabReleased : Nat → Bool
  readyQueue : WorkerType → List Nat
  completionQueue : List Nat
  /-- Group members of the slot that a worker still runs. -/
  executing : Nat → Nat
  orch : OrchPc
  sched : SchedPc
  -- history
  phase : Nat → Phase
  /-- Producers that were live when the slot attached to them. -/
  live : Nat → List Nat
  /-- Producers whose completion incremented the slot's `fanin_released`. -/
  bumped : Nat → List Nat
  /-- How often the slot was pushed as ready, by `submit_impl` or `on_task_complete`. -/
  pushes : Nat → Nat
  /-- The slot was registered in a scope. -/
  inScope : Nat → Bool
  /-- The releases of the slot performed so far. -/
  releases : Nat → List Holder
  /-- How often the slot was moved to CONSUMED. -/
  consumptions : Nat → Nat

namespace State

def init : State where
  state _ := .free
  faninCount _ := 0
  faninReleased _ := 0
  fanoutConsumers _ := []
  fanoutTotal _ := 0
  fanoutReleased _ := 0
  outputKeys _ := []
  faninProducers _ := []
  workerType _ := .nextLevel
  groupSize _ := 1
  subCompleteCount _ := 0
  nextTaskId := 0
  tensormap := .empty
  scopes := []
  activeTasks := 0
  slabReleased _ := false
  readyQueue _ := []
  completionQueue := []
  executing _ := 0
  orch := .idle
  sched := .idle
  phase _ := .unsubmitted
  live _ := []
  bumped _ := []
  pushes _ := 0
  inScope _ := false
  releases _ := []
  consumptions _ := 0

/-! ## Consuming a slot

`Scheduler::try_consume` and `Orchestrator::release_ref` are the same code on two
threads: both add one to `fanout_released`, compare with `fanout_total + 1` read
under `fanout_mu`, check the state and call `on_consumed`. -/

def consumeNext (s : State) (slot : Nat) : ConsumePc → Option ConsumePc
  | .fetchAdd => some (.readTotal (s.fanoutReleased slot + 1))
  | .readTotal released => if released ≥ s.fanoutTotal slot + 1 then some .loadState else none
  | .loadState => if s.state slot = .completed then some .cas else none
  | .cas => if s.state slot = .completed then some .erase else none
  | .erase => some .releaseSlab
  | .releaseSlab => some .decActive
  | .decActive => none

def consumeEffect (s : State) (slot : Nat) (holder : Holder) (pc : ConsumePc) : State :=
  { s with
    fanoutReleased := match pc with
      | .fetchAdd => update s.fanoutReleased slot (s.fanoutReleased slot + 1)
      | _ => s.fanoutReleased
    releases := match pc with
      | .fetchAdd => update s.releases slot (s.releases slot ++ [holder])
      | _ => s.releases
    state := match pc with
      | .cas =>
        if s.state slot = .completed then update s.state slot .consumed else s.state
      | _ => s.state
    consumptions := match pc with
      | .cas =>
        if s.state slot = .completed then
          update s.consumptions slot (s.consumptions slot + 1)
        else s.consumptions
      | _ => s.consumptions
    tensormap := match pc with
      | .erase => s.tensormap.eraseTaskOutputs (s.outputKeys slot)
      | _ => s.tensormap
    slabReleased := match pc with
      | .releaseSlab => update s.slabReleased slot true
      | _ => s.slabReleased
    activeTasks := match pc with
      | .decActive => s.activeTasks - 1
      | _ => s.activeTasks }

/-! ## The orchestrator thread -/

def scopeRef (s : State) : Nat := if s.scopes = [] then 0 else 1

/-- `Scope::register_task`; the innermost scope is the head of the list. -/
def registerTask (s : State) (slot : Nat) : State :=
  { s with
    scopes := match s.scopes with
      | [] => []
      | frame :: outer => (frame ++ [slot]) :: outer
    inScope := if s.scopes = [] then s.inScope else update s.inScope slot true }

def pushReady (s : State) (slot : Nat) : State :=
  { s with
    readyQueue := update s.readyQueue (s.workerType slot)
      (s.readyQueue (s.workerType slot) ++ [slot])
    phase := update s.phase slot .queued
    pushes := update s.pushes slot (s.pushes slot + 1) }

/-- Claim the next slot and start `infer_deps` on the carved-up arguments. -/
def reserve (s : State) (wt : WorkerType) (argsList : List TaskArgs) (affinities : List Int)
    (heapPtr : Nat) : State :=
  { s with
    nextTaskId := s.nextTaskId + 1
    workerType := update s.workerType s.nextTaskId wt
    groupSize := update s.groupSize s.nextTaskId argsList.length
    orch := .lookup s.nextTaskId (inferWalk (carveOutputs heapPtr 0 argsList) affinities) [] }

/-- The `insert` half of one turn of `infer_deps`. -/
def inferInsert (s : State) (slot : Nat) (x : TensorKey × TensorArgType)
    (walk : List (TensorKey × TensorArgType)) (producers : List Nat) : State :=
  { s with
    tensormap := if x.2.registers then s.tensormap.insert x.1 slot else s.tensormap
    outputKeys := if x.2.registers then
        update s.outputKeys slot (s.outputKeys slot ++ [x.1])
      else s.outputKeys
    orch := .lookup slot walk producers }

/-- The `fanout_mu` section that attaches `slot` to one producer. -/
def attachProducer (s : State) (slot prod : Nat) (producers : List Nat) (liveFanins : Nat) :
    State :=
  if s.state prod = .consumed then { s with orch := .attach slot producers liveFanins }
  else
    { s with
      fanoutConsumers := update s.fanoutConsumers prod
        (s.fanoutConsumers prod ++ [slot])
      fanoutTotal := update s.fanoutTotal prod (s.fanoutTotal prod + 1)
      faninProducers := update s.faninProducers slot (s.faninProducers slot ++ [prod])
      live := if s.state prod = .completed then s.live
        else update s.live slot (s.live slot ++ [prod])
      orch := .attach slot producers
        (if s.state prod = .completed then liveFanins else liveFanins + 1) }

def submitStep (s : State) (slot liveFanins : Nat) : SubmitPc → State
  | .faninCount =>
    { s with
      faninCount := update s.faninCount slot liveFanins
      orch := .submit slot liveFanins .faninReleased }
  | .faninReleased =>
    { s with
      faninReleased := update s.faninReleased slot 0
      orch := .submit slot liveFanins .fanoutTotal }
  | .fanoutTotal =>
    { s with
      fanoutTotal := update s.fanoutTotal slot s.scopeRef
      orch := .submit slot liveFanins .fanoutReleased }
  | .fanoutReleased =>
    { s.registerTask slot with
      fanoutReleased := update s.fanoutReleased slot 0
      orch := .submit slot liveFanins .state }
  | .state =>
    { s with
      state := update s.state slot (if liveFanins = 0 then .ready else .pending)
      phase := update s.phase slot (if liveFanins = 0 then .ready else .waiting)
      orch := if liveFanins = 0 then .submit slot liveFanins .push else .idle }
  | .push => { s.pushReady slot with orch := .idle }

def allocStep (s : State) (slot : Nat) : AllocPc → State
  | .insert ptr =>
    { s with
      tensormap := if ptr = 0 then s.tensormap else s.tensormap.insert ⟨ptr, -1⟩ slot
      outputKeys := if ptr = 0 then s.outputKeys
        else update s.outputKeys slot (s.outputKeys slot ++ [⟨ptr, -1⟩])
      orch := .alloc slot .fanin }
  | .fanin =>
    { s with
      faninCount := update s.faninCount slot 0
      faninReleased := update s.faninReleased slot 0
      orch := .alloc slot .fanoutTotal }
  | .fanoutTotal =>
    { s with
      fanoutTotal := update s.fanoutTotal slot s.scopeRef
      orch := .alloc slot .fanoutReleased }
  | .fanoutReleased =>
    -- stands for the slot's own release, which no completion will perform
    { s.registerTask slot with
      fanoutReleased := update s.fanoutReleased slot 1
      orch := .alloc slot .state }
  | .state =>
    { s with
      state := update s.state slot .completed
      phase := update s.phase slot .allocated
      releases := update s.releases slot (s.releases slot ++ [.self])
      orch := .alloc slot .active }
  | .active => { s with activeTasks := s.activeTasks + 1, orch := .idle }

/-- The next step of the call the orchestrator is in. -/
def orchStep (s : State) : Option State :=
  match s.orch with
  | .idle => none
  | .reserve .. => none
  | .lookup slot [] producers => some { s with orch := .attach slot producers 0 }
  | .lookup slot (x :: walk) producers =>
    some { s with orch := .insert slot x walk (inferLookup slot x s.tensormap producers) }
  | .insert slot x walk producers => some (s.inferInsert slot x walk producers)
  | .attach slot [] liveFanins => some { s with orch := .submit slot liveFanins .faninCount }
  | .attach slot (prod :: producers) liveFanins =>
    some (s.attachProducer slot prod producers liveFanins)
  | .submit slot liveFanins pc => some (s.submitStep slot liveFanins pc)
  | .alloc slot pc => some (s.allocStep slot pc)
  | .scopeEnd [] => some { s with scopes := s.scopes.tail, orch := .idle }
  | .scopeEnd (slot :: tasks) => some { s with orch := .release slot .fetchAdd tasks }
  | .release slot pc tasks =>
    some { s.consumeEffect slot .scope pc with
      orch := match s.consumeNext slot pc with
        | some pc' => .release slot pc' tasks
        | none => .scopeEnd tasks }

/-! ## The scheduler thread -/

/-- The next step of the `on_task_complete` the scheduler is in. -/
def schedStep (s : State) : Option State :=
  match s.sched with
  | .idle => none
  | .dispatch .. => none
  | .storeCompleted slot =>
    some { s with
      state := update s.state slot .completed
      phase := update s.phase slot .completed
      sched := .snapshot slot }
  | .snapshot slot => some { s with sched := .notify slot (s.fanoutConsumers slot) }
  | .notify slot [] => some { s with sched := .consumeSelf slot .fetchAdd }
  | .notify slot (consumer :: consumers) =>
    some { s with
      faninReleased := update s.faninReleased consumer (s.faninReleased consumer + 1)
      bumped := update s.bumped consumer (s.bumped consumer ++ [slot])
      sched := .check slot consumer (s.faninReleased consumer + 1) consumers }
  | .check slot consumer released consumers =>
    some { s with
      sched := if released ≥ s.faninCount consumer then .casReady slot consumer consumers
        else .notify slot consumers }
  | .casReady slot consumer consumers =>
    if s.state consumer = .pending then
      some { s with
        state := update s.state consumer .ready
        phase := update s.phase consumer .ready
        sched := .push slot consumer consumers }
    else some { s with sched := .notify slot consumers }
  | .push slot consumer consumers =>
    some { s.pushReady consumer with sched := .notify slot consumers }
  | .consumeSelf slot pc =>
    some { s.consumeEffect slot .self pc with
      sched := match s.consumeNext slot pc with
        | some pc' => .consumeSelf slot pc'
        | none => .readProducers slot }
  | .readProducers slot => some { s with sched := .deferred slot (s.faninProducers slot) }
  | .deferred slot [] =>
    some { s with phase := update s.phase slot .returned, sched := .idle }
  | .deferred slot (prod :: producers) =>
    some { s with sched := .consumeProducer slot prod .fetchAdd producers }
  | .consumeProducer slot prod pc producers =>
    some { s.consumeEffect prod (.consumer slot) pc with
      sched := match s.consumeNext prod pc with
        | some pc' => .consumeProducer slot prod pc' producers
        | none => .deferred slot producers }

/-- `Scheduler::worker_done`: the last member of a group reports the slot. -/
def workerDone (s : State) (slot : Nat) : State :=
  let done := s.subCompleteCount slot + 1
  { s with
    executing := update s.executing slot (s.executing slot - 1)
    subCompleteCount := update s.subCompleteCount slot done
    completionQueue := if done < s.groupSize slot then s.completionQueue
      else s.completionQueue ++ [slot]
    phase := if done < s.groupSize slot then s.phase
      else update s.phase slot .finished }

/-! ## Case analysis

What a step of either thread can be, with the program counter it starts from. -/

inductive OrchMove (s : State) : State → Prop
  | inferred {slot producers} (hpc : s.orch = .lookup slot [] producers) :
      OrchMove s { s with orch := .attach slot producers 0 }
  | lookup {slot x walk producers} (hpc : s.orch = .lookup slot (x :: walk) producers) :
      OrchMove s { s with
        orch := .insert slot x walk (inferLookup slot x s.tensormap producers) }
  | insert {slot x walk producers} (hpc : s.orch = .insert slot x walk producers) :
      OrchMove s (s.inferInsert slot x walk producers)
  | attached {slot n} (hpc : s.orch = .attach slot [] n) :
      OrchMove s { s with orch := .submit slot n .faninCount }
  | attach {slot prod producers n} (hpc : s.orch = .attach slot (prod :: producers) n) :
      OrchMove s (s.attachProducer slot prod producers n)
  | submit {slot n pc} (hpc : s.orch = .submit slot n pc) : OrchMove s (s.submitStep slot n pc)
  | alloc {slot pc} (hpc : s.orch = .alloc slot pc) : OrchMove s (s.allocStep slot pc)
  | scopeEnded (hpc : s.orch = .scopeEnd []) :
      OrchMove s { s with scopes := s.scopes.tail, orch := .idle }
  | releaseTask {slot tasks} (hpc : s.orch = .scopeEnd (slot :: tasks)) :
      OrchMove s { s with orch := .release slot .fetchAdd tasks }
  | release {slot pc tasks} (hpc : s.orch = .release slot pc tasks) :
      OrchMove s { s.consumeEffect slot .scope pc with
        orch := match s.consumeNext slot pc with
          | some pc' => .release slot pc' tasks
          | none => .scopeEnd tasks }

theorem orchStep_cases {s s' : State} (h : s.orchStep = some s') : OrchMove s s' := by
  unfold orchStep at h
  split at h <;> first
    | cases h; done
    | cases h; constructor; assumption

inductive SchedMove (s : State) : State → Prop
  | storeCompleted {slot} (hpc : s.sched = .storeCompleted slot) :
      SchedMove s { s with
        state := update s.state slot .completed
        phase := update s.phase slot .completed
        sched := .snapshot slot }
  | snapshot {slot} (hpc : s.sched = .snapshot slot) :
      SchedMove s { s with sched := .notify slot (s.fanoutConsumers slot) }
  | notified {slot} (hpc : s.sched = .notify slot []) :
      SchedMove s { s with sched := .consumeSelf slot .fetchAdd }
  | notify {slot consumer consumers} (hpc : s.sched = .notify slot (consumer :: consumers)) :
      SchedMove s { s with
        faninReleased := update s.faninReleased consumer (s.faninReleased consumer + 1)
        bumped := update s.bumped consumer (s.bumped consumer ++ [slot])
        sched := .check slot consumer (s.faninReleased consumer + 1) consumers }
  | check {slot consumer released consumers}
      (hpc : s.sched = .check slot consumer released consumers) :
      SchedMove s { s with
        sched := if released ≥ s.faninCount consumer then .casReady slot consumer consumers
          else .notify slot consumers }
  | casReady {slot consumer consumers} (hpc : s.sched = .casReady slot consumer consumers)
      (hst : s.state consumer = .pending) :
      SchedMove s { s with
        state := update s.state consumer .ready
        phase := update s.phase consumer .ready
        sched := .push slot consumer consumers }
  | casFailed {slot consumer consumers} (hpc : s.sched = .casReady slot consumer consumers)
      (hst : s.state consumer ≠ .pending) :
      SchedMove s { s with sched := .notify slot consumers }
  | push {slot consumer consumers} (hpc : s.sched = .push slot consumer consumers) :
      SchedMove s { s.pushReady consumer with sched := .notify slot consumers }
  | consumeSelf {slot pc} (hpc : s.sched = .consumeSelf slot pc) :
      SchedMove s { s.consumeEffect slot .self pc with
        sched := match s.consumeNext slot pc with
          | some pc' => .consumeSelf slot pc'
          | none => .readProducers slot }
  | readProducers {slot} (hpc : s.sched = .readProducers slot) :
      SchedMove s { s with sched := .deferred slot (s.faninProducers slot) }
  | returned {slot} (hpc : s.sched = .deferred slot []) :
      SchedMove s { s with phase := update s.phase slot .returned, sched := .idle }
  | deferred {slot prod producers} (hpc : s.sched = .deferred slot (prod :: producers)) :
      SchedMove s { s with sched := .consumeProducer slot prod .fetchAdd producers }
  | consumeProducer {slot prod pc producers}
      (hpc : s.sched = .consumeProducer slot prod pc producers) :
      SchedMove s { s.consumeEffect prod (.consumer slot) pc with
        sched := match s.consumeNext prod pc with
          | some pc' => .consumeProducer slot prod pc' producers
          | none => .deferred slot producers }

theorem schedStep_cases {s s' : State} (h : s.schedStep = some s') : SchedMove s s' := by
  unfold schedStep at h
  split at h
  case h_8 hpc =>
    split at h <;> cases h
    · exact .casReady hpc ‹_›
    · exact .casFailed hpc ‹_›
  all_goals first
    | cases h; done
    | cases h; constructor; assumption

end State

/-! ## The system -/

inductive Act
  -- the orchestrator's next call, when it is idle
  | submit (workerType : WorkerType) (argsList : List TaskArgs) (affinities : List Int)
  | alloc (heapPtr : Nat)
  | scopeBegin
  | scopeEnd
  -- the allocator's answer to a submission
  | reserve (heapPtr : Nat)
  | shutdown
  -- the orchestrator's next step
  | orch
  -- the scheduler's next job, when it is idle
  | popCompletion
  | popReady (queue : WorkerType)
  -- whether the popped slot gets its workers
  | dispatch
  | noWorker
  -- the scheduler's next step
  | sched
  | workerDone (slot : Nat)
  deriving Repr

def step (s : State) : Act → Option State
  | .submit wt argsList affinities =>
    if s.orch = .idle ∧ argsList ≠ [] then
      some { s with
        activeTasks := s.activeTasks + 1
        orch := .reserve wt argsList affinities }
    else none
  | .alloc heapPtr =>
    if s.orch = .idle then
      some { s with
        nextTaskId := s.nextTaskId + 1
        orch := .alloc s.nextTaskId (.insert heapPtr) }
    else none
  | .scopeBegin =>
    if s.orch = .idle ∧ s.scopes.length < maxScopeDepth then
      some { s with scopes := [] :: s.scopes }
    else none
  | .scopeEnd =>
    match s.orch, s.scopes with
    | .idle, frame :: _ => some { s with orch := .scopeEnd frame }
    | _, _ => none
  | .reserve heapPtr =>
    match s.orch with
    | .reserve wt argsList affinities => some (s.reserve wt argsList affinities heapPtr)
    | _ => none
  | .shutdown =>
    match s.orch with
    | .reserve .. => some { s with activeTasks := s.activeTasks - 1, orch := .idle }
    | _ => none
  | .orch => s.orchStep
  | .popCompletion =>
    match s.sched, s.completionQueue with
    | .idle, slot :: rest =>
      some { s with
        completionQueue := rest
        phase := update s.phase slot .completing
        sched := .storeCompleted slot }
    | _, _ => none
  | .popReady queue =>
    match s.sched, s.readyQueue queue with
    | .idle, slot :: rest =>
      some { s with
        readyQueue := update s.readyQueue queue rest
        phase := update s.phase slot .dispatching
        sched := .dispatch queue slot }
    | _, _ => none
  | .dispatch =>
    match s.sched with
    | .dispatch _ slot =>
      some { s with
        state := update s.state slot .running
        executing := update s.executing slot (s.groupSize slot)
        phase := update s.phase slot .executing
        sched := .idle }
    | _ => none
  | .noWorker =>
    -- no idle worker: the slot goes back to the queue it was popped from
    match s.sched with
    | .dispatch queue slot =>
      some { s with
        readyQueue := update s.readyQueue queue (s.readyQueue queue ++ [slot])
        phase := update s.phase slot .queued
        sched := .idle }
    | _ => none
  | .sched => s.schedStep
  | .workerDone slot => if 0 < s.executing slot then some (s.workerDone slot) else none

inductive Move (s : State) : State → Prop
  | submit {wt argsList affinities} (hpc : s.orch = .idle) (hArgs : argsList ≠ []) :
      Move s { s with
        activeTasks := s.activeTasks + 1
        orch := .reserve wt argsList affinities }
  | alloc {heapPtr} (hpc : s.orch = .idle) :
      Move s { s with
        nextTaskId := s.nextTaskId + 1
        orch := .alloc s.nextTaskId (.insert heapPtr) }
  | scopeBegin (hpc : s.orch = .idle) (hDepth : s.scopes.length < maxScopeDepth) :
      Move s { s with scopes := [] :: s.scopes }
  | scopeEnd {frame outer} (hpc : s.orch = .idle) (hScopes : s.scopes = frame :: outer) :
      Move s { s with orch := .scopeEnd frame }
  | reserve {wt argsList affinities heapPtr} (hpc : s.orch = .reserve wt argsList affinities) :
      Move s (s.reserve wt argsList affinities heapPtr)
  | shutdown {wt argsList affinities} (hpc : s.orch = .reserve wt argsList affinities) :
      Move s { s with activeTasks := s.activeTasks - 1, orch := .idle }
  | popCompletion {slot rest} (hpc : s.sched = .idle) (hq : s.completionQueue = slot :: rest) :
      Move s { s with
        completionQueue := rest
        phase := update s.phase slot .completing
        sched := .storeCompleted slot }
  | popReady {queue slot rest} (hpc : s.sched = .idle) (hq : s.readyQueue queue = slot :: rest) :
      Move s { s with
        readyQueue := update s.readyQueue queue rest
        phase := update s.phase slot .dispatching
        sched := .dispatch queue slot }
  | dispatch {queue slot} (hpc : s.sched = .dispatch queue slot) :
      Move s { s with
        state := update s.state slot .running
        executing := update s.executing slot (s.groupSize slot)
        phase := update s.phase slot .executing
        sched := .idle }
  | noWorker {queue slot} (hpc : s.sched = .dispatch queue slot) :
      Move s { s with
        readyQueue := update s.readyQueue queue (s.readyQueue queue ++ [slot])
        phase := update s.phase slot .queued
        sched := .idle }
  | workerDone {slot} (hx : 0 < s.executing slot) : Move s (s.workerDone slot)

/-- A step is one of the orchestrator's, one of the scheduler's, or a `Move`. -/
theorem step_cases {s s' : State} {a : Act} (h : step s a = some s') :
    (a = .orch ∧ s.OrchMove s') ∨ (a = .sched ∧ s.SchedMove s') ∨
      (a ≠ .orch ∧ a ≠ .sched ∧ Move s s') := by
  cases a with
  | orch => exact .inl ⟨rfl, State.orchStep_cases h⟩
  | sched => exact .inr (.inl ⟨rfl, State.schedStep_cases h⟩)
  | submit | alloc | scopeBegin | workerDone =>
    refine .inr (.inr ⟨by simp, by simp, ?_⟩)
    simp only [step] at h
    split at h <;> cases h
    constructor <;> simp_all
  | _ =>
    refine .inr (.inr ⟨by simp, by simp, ?_⟩)
    simp only [step] at h
    split at h <;> cases h
    first
    | exact .scopeEnd ‹_› ‹_›
    | exact .reserve ‹_›
    | exact .shutdown ‹_›
    | exact .popCompletion ‹_› ‹_›
    | exact .popReady ‹_› ‹_›
    | exact .dispatch ‹_›
    | exact .noWorker ‹_›

/-! ## Pieces of runs -/

/-- Two host tensors. -/
def tensorA : ContinuousTensor := ⟨0x1000, 64, false⟩
def tensorB : ContinuousTensor := ⟨0x2000, 64, false⟩

/-- Submit a task without producers that writes `t`, up to its push. -/
def submitWriter (t : ContinuousTensor) : List Act :=
  [Act.submit .sub [[(t, .output)]] [], .reserve 0] ++ List.replicate 10 Act.orch

/-- Dispatch the task at the head of the queue. -/
def startTask : List Act := [.popReady .sub, .dispatch]

end PtoRuntime.Hier
