import PtoRuntime.Tmrb.Allocator
import PtoRuntime.Tmrb.Wiring

/-!
# The tensormap_and_ringbuffer runtime

The orchestrator (scopes, `submit_task`, `alloc_tensors`) and the scheduler threads
(wiring, completion, release, ring advance) on several task rings. A step is one atomic
operation, one lock section or one queue operation; plain accesses of data that only one
thread writes go with the operation next to them.

* The orchestrator opens and closes scopes; the scope depth selects the ring. A
  submission takes the next id of the ring (`commit_task` publishes it), then stores
  PENDING into the slot, synchronises the tensor map with the ring's watermark, collects
  its producers, increments the `fanout_count` of each and pushes the task to the wiring
  queue. Closing a scope releases each of its tasks once.
* A task that has completed releases each of its producers once (`on_task_release`, which
  the schedulers run later than the completion) and then checks itself.
* `release_producer` increments `fanout_refcount`; `check_and_handle_consumed` compares
  it with `fanout_count`, moves the slot from COMPLETED to CONSUMED and advances the ring
  under a try-lock.

Which producers a submission collects is left to the run: explicit dependencies, owners
of its tensors and tensor-map entries, the latter as far as the map's cached watermarks
let them through. Whether the heap has space is left to the run, too. Ids are `int32_t` in
the source: a run has fewer than 2³¹ tasks on a ring.

Wiring and completion are the moves of `Wiring`, over the slots of all rings.
-/

namespace PtoRuntime.Tmrb

open Function

open Option

/-- `PTO2TaskId`. -/
structure TaskId where
  ring : Nat
  loc : Nat
  deriving DecidableEq, Repr

/-- A slot of the slot table of a ring. -/
structure SlotRef where
  ring : Nat
  idx : Nat
  deriving DecidableEq, Repr

/-- The configuration of all rings. -/
abbrev Config := Nat → RingConfig

namespace Config

/-- `get_slot_state_by_task_id`. -/
def slot (c : Config) (t : TaskId) : SlotRef := ⟨t.ring, t.loc &&& (c t.ring).windowMask⟩

/-- The task that an incarnation of a slot is. -/
def task (c : Config) (q : Inc SlotRef) : TaskId :=
  ⟨q.1.ring, (q.2 - 1) * (c q.1.ring).windowSize + q.1.idx⟩

theorem slot_eq (c : Config) (t : TaskId) :
    c.slot t = ⟨t.ring, t.loc % (c t.ring).windowSize⟩ := by
  rw [slot, (c t.ring).and_windowMask]

end Config

/-- Windows of four slots. -/
def smallRings : Config := fun _ => smallRing

/-- `PTO2_MAX_RING_DEPTH`. -/
def maxRingDepth : Nat := 4

/-- Who runs `release_producer` and `check_and_handle_consumed`. -/
inductive Agent
  | orch
  | sched (i : Nat)
  deriving DecidableEq, Repr

/-- A reference that `fanout_count` counts: the owning scope, or a consumer. -/
inductive Holder
  | scope
  | task (t : TaskId)
  deriving DecidableEq, Repr

/-- What a thread goes on with after a `check_and_handle_consumed`. -/
inductive Cont
  | scope (todo : List TaskId)      -- on_scope_end: the tasks left
  | task (x : TaskId) (i n : Nat)   -- on_task_release: the next of `n` fanin entries
  | ret
  deriving DecidableEq, Repr

/-- Program counter of a thread in `on_scope_end` / `on_task_release`. -/
inductive ThreadPc
  | idle
  | next (k : Cont)
  -- release_producer
  | add (p : TaskId) (h : Holder) (k : Cont)
  -- check_and_handle_consumed
  | loadRefcount (slot : SlotRef) (k : Cont)
  | loadCount (slot : SlotRef) (refcount : Nat) (k : Cont)
  | cas (slot : SlotRef) (k : Cont)
  | tryLock (t : TaskId) (k : Cont)
  -- advance_ring_pointers, holding the lock
  | loadIndex (ring : Nat) (k : Cont)
  | scan (ring old index : Nat) (k : Cont)
  | reset (ring id : Nat) (half : Bool) (k : Cont)
  | sync (ring : Nat) (k : Cont)
  | unlock (ring : Nat) (k : Cont)
  deriving DecidableEq, Repr

def Cont.resume : Cont → ThreadPc
  | .ret => .idle
  | k => .next k

/-- Program counter of the orchestrator. -/
inductive OrchPc
  | idle
  | allocLoad (hidden : Bool)                                  -- alloc: load the watermark
  | allocTry (hidden : Bool) (lastAlive : Nat)
  | storePending (t : TaskId) (hidden : Bool)
  | storeCompleted (t : TaskId)                                -- the end of alloc_tensors
  | syncMap (t : TaskId)
  | deps (t : TaskId) (fanin : List TaskId)                    -- the fanin builder
  | count (t : TaskId) (fanin todo : List TaskId)              -- `fanout_count++`
  | push (t : TaskId) (fanin : List TaskId)
  | endScope
  deriving DecidableEq, Repr

/-- Where a producer comes from. -/
inductive Source
  | explicit
  | owner
  | lookup
  deriving DecidableEq, Repr

structure State where
  wiring : Wiring SlotRef
  fanoutCount : SlotRef → Nat
  fanoutRefcount : SlotRef → Nat
  -- the fanin list of a slot's payload, with the task each entry was recorded for
  payload : SlotRef → List TaskId
  -- flow control of the rings: the orchestrator's index, the published watermark
  currentTaskIndex : Nat → Nat
  smLastTaskAlive : Nat → Nat
  -- RingSchedState: the schedulers' watermark, and the lock with the thread that set it
  lastTaskAlive : Nat → Nat
  advanceLock : Nat → Option Agent
  -- the orchestrator
  mapLastTaskAlives : Nat → Nat
  scopes : List (List TaskId)
  fatal : Bool
  orch : OrchPc
  -- tasks that have completed and wait for on_task_release; the threads
  deferred : List TaskId
  thread : Agent → ThreadPc
  -- history
  frontier : Nat → Nat                -- the next id of a ring to be reset
  half : Nat → Bool                   -- its reset has begun
  counts : SlotRef → Nat              -- the id whose references `fanout_refcount` counts
  claims : TaskId → List Holder       -- references counted in `fanout_count`
  releases : TaskId → List Holder     -- references released
  recorded : TaskId → List TaskId     -- producers appended to the fanin builder
  consumed : TaskId → Bool
  counted : List (TaskId × TaskId)    -- a release, and the task whose counter it went to

namespace State

def init : State where
  wiring := .init fun _ => 0
  fanoutCount _ := 1
  fanoutRefcount _ := 0
  payload _ := []
  currentTaskIndex _ := 0
  smLastTaskAlive _ := 0
  lastTaskAlive _ := 0
  advanceLock _ := none
  mapLastTaskAlives _ := 0
  scopes := []
  fatal := false
  orch := .idle
  deferred := []
  thread _ := .idle
  frontier _ := 0
  half _ := false
  counts k := k.idx
  claims _ := [.scope]
  releases _ := []
  recorded _ := []
  consumed _ := false
  counted := []

/-- `current_ring_id`. -/
def currentRingId (s : State) : Nat := min (s.scopes.length - 1) (maxRingDepth - 1)

variable (c : Config)

/-- The slot of a task still holds that task. -/
def Holds (s : State) (t : TaskId) : Prop :=
  s.wiring.gen (c.slot t) = t.loc / (c t.ring).windowSize + 1

instance (s : State) (t : TaskId) : Decidable (s.Holds c t) := inferInstanceAs (Decidable (_ = _))

def setThread (s : State) (a : Agent) (pc : ThreadPc) : State :=
  { s with thread := update s.thread a pc }

/-! ## The orchestrator -/

def beginScope (s : State) : State := { s with scopes := [] :: s.scopes }

/-- `end_scope`: the scope is popped, then its tasks are released. -/
def endScope (s : State) (top : List TaskId) (rest : List (List TaskId)) : State :=
  { s with
    scopes := rest
    orch := .endScope
    thread := update s.thread .orch (.next (.scope top)) }

/-- `check_scope_can_accept_task` at the start of `prepare_task`. -/
def beginSubmit (s : State) (top : List TaskId) (hidden : Bool) : State :=
  if top.length < (c s.currentRingId).windowSize - 1 then { s with orch := .allocLoad hidden }
  else { s with fatal := true }

/-- `alloc` loads the watermark. -/
def allocLoad (s : State) (hidden : Bool) : State :=
  { s with orch := .allocTry hidden (s.smLastTaskAlive s.currentRingId) }

/-- `commit_task` publishes the next id. -/
def commitTask (s : State) (hidden : Bool) : State :=
  let r := s.currentRingId
  { s with
    currentTaskIndex := update s.currentTaskIndex r (s.currentTaskIndex r + 1)
    orch := .storePending ⟨r, s.currentTaskIndex r⟩ hidden }

/-- The rest of `prepare_task`: PENDING is stored and the task joins the innermost scope. -/
def storePending (s : State) (t : TaskId) (hidden : Bool) : State :=
  { s with
    wiring := s.wiring.prepare (c.slot t)
    scopes := s.scopes.modifyHead (· ++ [t])
    orch := if hidden then .storeCompleted t else .syncMap t }

def storeCompleted (s : State) (t : TaskId) : State :=
  { s with
    wiring := s.wiring.allocTensors (c.slot t)
    payload := update s.payload (c.slot t) []
    orch := .idle }

/-- The load of the watermark for `sync_tensormap`. -/
def syncMap (s : State) (t : TaskId) : State :=
  { s with
    mapLastTaskAlives :=
      update s.mapLastTaskAlives t.ring (s.smLastTaskAlive t.ring)
    orch := .deps t [] }

/-- What the source of a producer checks before it is appended. -/
def Emits (s : State) (p : TaskId) : Source → Prop
  | .explicit => s.smLastTaskAlive p.ring ≤ p.loc
  | .owner => True
  | .lookup => s.mapLastTaskAlives p.ring ≤ p.loc

instance (s : State) (p : TaskId) (src : Source) : Decidable (s.Emits p src) :=
  match src with
  | .explicit => inferInstanceAs (Decidable (_ ≤ _))
  | .owner => inferInstanceAs (Decidable True)
  | .lookup => inferInstanceAs (Decidable (_ ≤ _))

def appendFanin (s : State) (t : TaskId) (fanin : List TaskId) (p : TaskId) : State :=
  { s with
    orch := .deps t (fanin ++ [p])
    recorded := update s.recorded t (fanin ++ [p]) }

/-- `append_fanin_or_fail`: a slot is appended once. -/
def record (s : State) (t : TaskId) (fanin : List TaskId) (p : TaskId) : State :=
  if c.slot p ∈ fanin.map c.slot then s else s.appendFanin t fanin p

/-- The fanin builder runs out of space: the submission ends here and its list is lost. -/
def dropFanin (s : State) (t : TaskId) : State :=
  { s with
    orch := .idle
    fatal := true
    recorded := update s.recorded t [] }

/-- `producer->fanout_count++`. -/
def countProducer (s : State) (t : TaskId) (fanin : List TaskId) (p : TaskId)
    (todo : List TaskId) : State :=
  { s with
    fanoutCount := update s.fanoutCount (c.slot p) (s.fanoutCount (c.slot p) + 1)
    claims := update s.claims p (s.claims p ++ [.task t])
    orch := .count t fanin todo }

/-- The payload is written and the slot pushed to the wiring queue. -/
def pushWiring (s : State) (t : TaskId) (fanin : List TaskId) : State :=
  { s with
    wiring := s.wiring.submit (c.slot t) (fanin.map c.slot)
    payload := update s.payload (c.slot t) fanin
    orch := .idle }

/-- Steps of the orchestrator that leave nothing to choose. -/
def orchStep (s : State) : Option State :=
  match s.orch with
  | .allocLoad hidden => some (s.allocLoad hidden)
  | .allocTry hidden lastAlive =>
    if s.currentTaskIndex s.currentRingId - lastAlive + 1 < (c s.currentRingId).windowSize
    then some (s.commitTask hidden) else none
  | .storePending t hidden => some (s.storePending c t hidden)
  | .storeCompleted t => some (s.storeCompleted c t)
  | .syncMap t => some (s.syncMap t)
  | .deps t fanin => some { s with orch := .count t fanin fanin }
  | .count t fanin (p :: todo) => some (s.countProducer c t fanin p todo)
  | .count t fanin [] => some { s with orch := .push t fanin }
  | .push t fanin => some (s.pushWiring c t fanin)
  | .idle | .endScope => none

/-! ## Releasing and consuming -/

/-- `fanout_refcount.fetch_add(1)`. -/
def addRefcount (s : State) (a : Agent) (p : TaskId) (h : Holder) (k : Cont) : State :=
  { s with
    fanoutRefcount := update s.fanoutRefcount (c.slot p) (s.fanoutRefcount (c.slot p) + 1)
    releases := update s.releases p (s.releases p ++ [h])
    counted := (p, ⟨p.ring, s.counts (c.slot p)⟩) :: s.counted
    thread := update s.thread a (.loadRefcount (c.slot p) k) }

/-- The CAS from COMPLETED to CONSUMED succeeds. -/
def consumeSlot (s : State) (a : Agent) (slot : SlotRef) (k : Cont) : State :=
  { s with
    wiring := s.wiring.consume slot
    consumed := update s.consumed (c.task (s.wiring.cur slot)) true
    thread := update s.thread a (.tryLock (c.task (s.wiring.cur slot)) k) }

def lockRing (s : State) (a : Agent) (ring : Nat) (k : Cont) : State :=
  { s with
    advanceLock := update s.advanceLock ring (some a)
    thread := update s.thread a (.loadIndex ring k) }

/-- The scan of `advance_ring_pointers` passes a slot. -/
def passSlot (s : State) (ring : Nat) : State :=
  { s with lastTaskAlive := update s.lastTaskAlive ring (s.lastTaskAlive ring + 1) }

/-- `reset_for_reuse`, up to the store to `fanin_refcount`. -/
def resetFanin (s : State) (a : Agent) (ring id : Nat) (k : Cont) : State :=
  { s with
    wiring := s.wiring.resetForReuse (c.slot ⟨ring, id⟩)
    fanoutCount := update s.fanoutCount (c.slot ⟨ring, id⟩) 1
    half := update s.half ring true
    thread := update s.thread a (.reset ring id true k) }

/-- `reset_for_reuse`, the store to `fanout_refcount`. -/
def resetFanout (s : State) (a : Agent) (ring id : Nat) (k : Cont) : State :=
  { s with
    fanoutRefcount := update s.fanoutRefcount (c.slot ⟨ring, id⟩) 0
    counts := update s.counts (c.slot ⟨ring, id⟩) (id + (c ring).windowSize)
    frontier := update s.frontier ring (id + 1)
    half := update s.half ring false
    thread := update s.thread a (.reset ring (id + 1) false k) }

def syncToSm (s : State) (a : Agent) (ring : Nat) (k : Cont) : State :=
  { s with
    smLastTaskAlive := update s.smLastTaskAlive ring (s.lastTaskAlive ring)
    thread := update s.thread a (.unlock ring k) }

def unlockRing (s : State) (a : Agent) (ring : Nat) (k : Cont) : State :=
  { s with
    advanceLock := update s.advanceLock ring none
    thread := update s.thread a k.resume }

/-- One step of a thread inside `on_scope_end` or `on_task_release`. -/
def threadStep (s : State) (a : Agent) : Option State :=
  match s.thread a with
  | .idle => none
  | .next (.scope []) => some { s with orch := .idle, thread := update s.thread a .idle }
  | .next (.scope (p :: todo)) => some (s.setThread a (.add p .scope (.scope todo)))
  | .next (.task x i n) =>
    if i < n then
      -- the payload is read entry by entry
      match (s.payload (c.slot x))[i]? with
      | some p => some (s.setThread a (.add p (.task x) (.task x (i + 1) n)))
      | none => none
    else some (s.setThread a (.loadRefcount (c.slot x) .ret))
  | .next .ret => none
  | .add p h k => some (s.addRefcount c a p h k)
  | .loadRefcount slot k => some (s.setThread a (.loadCount slot (s.fanoutRefcount slot) k))
  | .loadCount slot refcount k =>
    if refcount = s.fanoutCount slot then some (s.setThread a (.cas slot k))
    else some (s.setThread a k.resume)
  | .cas slot k =>
    if s.wiring.taskState slot = .completed then some (s.consumeSlot c a slot k)
    else some (s.setThread a k.resume)
  | .tryLock t k =>
    if s.advanceLock t.ring = none then some (s.lockRing a t.ring k)
    else some (s.setThread a k.resume)
  | .loadIndex ring k =>
    some (s.setThread a (.scan ring (s.lastTaskAlive ring) (s.currentTaskIndex ring) k))
  | .scan ring old index k =>
    if s.lastTaskAlive ring < index ∧
        s.wiring.taskState (c.slot ⟨ring, s.lastTaskAlive ring⟩) = .consumed
    then some (s.passSlot ring) else some (s.setThread a (.reset ring old false k))
  | .reset ring id true k => some (s.resetFanout c a ring id k)
  | .reset ring id false k =>
    if id < s.lastTaskAlive ring then some (s.resetFanin c a ring id k)
    else some (s.setThread a (.sync ring k))
  | .sync ring k => some (s.syncToSm a ring k)
  | .unlock ring k => some (s.unlockRing a ring k)

/-- A scheduler thread takes a completed task from its deferred list. -/
def startRelease (s : State) (i : Nat) (x : TaskId) : State :=
  { s with
    deferred := s.deferred.erase x
    thread := update s.thread (.sched i)
      (.next (.task x 0 (s.payload (c.slot x)).length)) }

/-- The completion of an incarnation takes a step; when it returns, the task is deferred. -/
def notifyStep (s : State) (q : Inc SlotRef) (wiring : Wiring SlotRef) : State :=
  { s with
    wiring := wiring
    deferred := if s.wiring.notify q = .walk [] then c.task q :: s.deferred else s.deferred }

/-- Labels of the interleaving. -/
inductive Act
  | beginScope
  | endScope
  | submitTask
  | allocTensors
  | orch
  | retry                            -- alloc finds no space and loads the watermark again
  | giveUp                           -- alloc or the fanin builder reports a fatal error
  | record (src : Source) (p : TaskId)
  | thread (a : Agent)
  | startRelease (i : Nat) (x : TaskId)
  | wire
  | complete (k : SlotRef)
  | notify (q : Inc SlotRef)
  deriving DecidableEq, Repr

/-- The orchestrator is between two calls of its program. -/
def Ready (s : State) : Prop := s.orch = .idle ∧ s.fatal = false

instance (s : State) : Decidable s.Ready := inferInstanceAs (Decidable (_ ∧ _))

def step (s : State) : Act → Option State
  | .beginScope => if s.Ready then some s.beginScope else none
  | .endScope =>
    match s.scopes with
    | top :: rest => if s.Ready then some (s.endScope top rest) else none
    | [] => none
  | .submitTask =>
    match s.scopes with
    | top :: _ => if s.Ready then some (s.beginSubmit c top false) else none
    | [] => none
  | .allocTensors =>
    match s.scopes with
    | top :: _ => if s.Ready then some (s.beginSubmit c top true) else none
    | [] => none
  | .orch => s.orchStep c
  | .retry =>
    match s.orch with
    | .allocTry hidden _ => some { s with orch := .allocLoad hidden }
    | _ => none
  | .giveUp =>
    match s.orch with
    | .allocTry _ _ => some { s with orch := .idle, fatal := true }
    | .deps t _ => some (s.dropFanin t)
    | _ => none
  | .record src p =>
    match s.orch with
    | .deps t fanin =>
      if p ≠ t ∧ p.loc < s.currentTaskIndex p.ring ∧ s.Emits p src
      then some (s.record c t fanin p) else none
    | _ => none
  | .thread a => s.threadStep c a
  | .startRelease i x =>
    if s.thread (.sched i) = .idle ∧ x ∈ s.deferred then some (s.startRelease c i x) else none
  | .wire => s.wiring.wireStep.map fun w => { s with wiring := w }
  | .complete k =>
    if k ∈ s.wiring.ready then some { s with wiring := s.wiring.complete k } else none
  | .notify q => (s.wiring.notifyStep q).map fun w => s.notifyStep c q w

/-! ## Inversion -/

/-- What a step of the orchestrator does, with the facts it was taken under. -/
inductive OrchMove (s : State) : Act → State → Prop
  | beginScope : s.Ready → OrchMove s .beginScope s.beginScope
  | endScope (top : List TaskId) (rest : List (List TaskId)) : s.Ready → s.scopes = top :: rest →
      OrchMove s .endScope (s.endScope top rest)
  | beginSubmit (act : Act) (hidden : Bool) : s.Ready → s.scopes ≠ [] →
      OrchMove s act { s with orch := .allocLoad hidden }
  | scopeFull (act : Act) : s.Ready → OrchMove s act { s with fatal := true }
  | allocLoad (hidden : Bool) : s.orch = .allocLoad hidden → OrchMove s .orch (s.allocLoad hidden)
  | commitTask (hidden : Bool) (lastAlive : Nat) : s.orch = .allocTry hidden lastAlive →
      s.currentTaskIndex s.currentRingId - lastAlive + 1 < (c s.currentRingId).windowSize →
      OrchMove s .orch (s.commitTask hidden)
  | retry (hidden : Bool) (lastAlive : Nat) : s.orch = .allocTry hidden lastAlive →
      OrchMove s .retry { s with orch := .allocLoad hidden }
  | allocFails (hidden : Bool) (lastAlive : Nat) : s.orch = .allocTry hidden lastAlive →
      OrchMove s .giveUp { s with orch := .idle, fatal := true }
  | dropFanin (t : TaskId) (fanin : List TaskId) : s.orch = .deps t fanin →
      OrchMove s .giveUp (s.dropFanin t)
  | storePending (t : TaskId) (hidden : Bool) : s.orch = .storePending t hidden →
      OrchMove s .orch (s.storePending c t hidden)
  | storeCompleted (t : TaskId) : s.orch = .storeCompleted t →
      OrchMove s .orch (s.storeCompleted c t)
  | syncMap (t : TaskId) : s.orch = .syncMap t → OrchMove s .orch (s.syncMap t)
  | appendFanin (src : Source) (t : TaskId) (fanin : List TaskId) (p : TaskId) :
      s.orch = .deps t fanin → p ≠ t → p.loc < s.currentTaskIndex p.ring →
      c.slot p ∉ fanin.map c.slot → OrchMove s (.record src p) (s.appendFanin t fanin p)
  | appendedBefore (src : Source) (p : TaskId) : OrchMove s (.record src p) s
  | depsDone (t : TaskId) (fanin : List TaskId) : s.orch = .deps t fanin →
      OrchMove s .orch { s with orch := .count t fanin fanin }
  | countProducer (t : TaskId) (fanin : List TaskId) (p : TaskId) (todo : List TaskId) :
      s.orch = .count t fanin (p :: todo) → OrchMove s .orch (s.countProducer c t fanin p todo)
  | countDone (t : TaskId) (fanin : List TaskId) : s.orch = .count t fanin [] →
      OrchMove s .orch { s with orch := .push t fanin }
  | pushWiring (t : TaskId) (fanin : List TaskId) : s.orch = .push t fanin →
      OrchMove s .orch (s.pushWiring c t fanin)

/-- What a step of a thread inside `on_scope_end` or `on_task_release` does. -/
inductive ThreadMove (s : State) (a : Agent) : State → Prop
  | scopeDone : s.thread a = .next (.scope []) →
      ThreadMove s a { s with orch := .idle, thread := update s.thread a .idle }
  | scopeNext (p : TaskId) (todo : List TaskId) : s.thread a = .next (.scope (p :: todo)) →
      ThreadMove s a (s.setThread a (.add p .scope (.scope todo)))
  | taskNext (x : TaskId) (i n : Nat) (p : TaskId) : s.thread a = .next (.task x i n) → i < n →
      (s.payload (c.slot x))[i]? = some p →
      ThreadMove s a (s.setThread a (.add p (.task x) (.task x (i + 1) n)))
  | taskDone (x : TaskId) (i n : Nat) : s.thread a = .next (.task x i n) → n ≤ i →
      ThreadMove s a (s.setThread a (.loadRefcount (c.slot x) .ret))
  | addRefcount (p : TaskId) (h : Holder) (k : Cont) : s.thread a = .add p h k →
      ThreadMove s a (s.addRefcount c a p h k)
  | loadRefcount (slot : SlotRef) (k : Cont) : s.thread a = .loadRefcount slot k →
      ThreadMove s a (s.setThread a (.loadCount slot (s.fanoutRefcount slot) k))
  | loadCount (slot : SlotRef) (refcount : Nat) (k : Cont) :
      s.thread a = .loadCount slot refcount k → ThreadMove s a (s.setThread a (.cas slot k))
  -- the check returns: the counts differ, or the CAS or the try-lock fails
  | return (pc : ThreadPc) (k : Cont) : s.thread a = pc →
      (∃ slot n, pc = .loadCount slot n k) ∨ (∃ slot, pc = .cas slot k) ∨
        (∃ t, pc = .tryLock t k ∧ s.advanceLock t.ring ≠ none) →
      ThreadMove s a (s.setThread a k.resume)
  | consumeSlot (slot : SlotRef) (k : Cont) : s.thread a = .cas slot k →
      s.wiring.taskState slot = .completed → ThreadMove s a (s.consumeSlot c a slot k)
  | lockRing (t : TaskId) (k : Cont) : s.thread a = .tryLock t k → s.advanceLock t.ring = none →
      ThreadMove s a (s.lockRing a t.ring k)
  | loadIndex (ring : Nat) (k : Cont) : s.thread a = .loadIndex ring k →
      ThreadMove s a
        (s.setThread a (.scan ring (s.lastTaskAlive ring) (s.currentTaskIndex ring) k))
  | passSlot (ring old index : Nat) (k : Cont) : s.thread a = .scan ring old index k →
      s.lastTaskAlive ring < index →
      s.wiring.taskState (c.slot ⟨ring, s.lastTaskAlive ring⟩) = .consumed →
      ThreadMove s a (s.passSlot ring)
  | stopScan (ring old index : Nat) (k : Cont) : s.thread a = .scan ring old index k →
      ¬ (s.lastTaskAlive ring < index ∧
        s.wiring.taskState (c.slot ⟨ring, s.lastTaskAlive ring⟩) = .consumed) →
      ThreadMove s a (s.setThread a (.reset ring old false k))
  | resetFanin (ring id : Nat) (k : Cont) : s.thread a = .reset ring id false k →
      id < s.lastTaskAlive ring → ThreadMove s a (s.resetFanin c a ring id k)
  | resetFanout (ring id : Nat) (k : Cont) : s.thread a = .reset ring id true k →
      ThreadMove s a (s.resetFanout c a ring id k)
  | resetDone (ring id : Nat) (k : Cont) : s.thread a = .reset ring id false k →
      s.lastTaskAlive ring ≤ id → ThreadMove s a (s.setThread a (.sync ring k))
  | syncToSm (ring : Nat) (k : Cont) : s.thread a = .sync ring k →
      ThreadMove s a (s.syncToSm a ring k)
  | unlockRing (ring : Nat) (k : Cont) : s.thread a = .unlock ring k →
      ThreadMove s a (s.unlockRing a ring k)

/-- What one step does to a state. -/
inductive Move (s : State) : Act → State → Prop
  | orch {act : Act} {s' : State} : OrchMove c s act s' → Move s act s'
  | thread {a : Agent} {s' : State} : ThreadMove c s a s' → Move s (.thread a) s'
  | startRelease (i : Nat) (x : TaskId) : s.thread (.sched i) = .idle → x ∈ s.deferred →
      Move s (.startRelease i x) (s.startRelease c i x)
  | wire (w : Wiring SlotRef) : s.wiring.wireStep = some w → Move s .wire { s with wiring := w }
  | complete (k : SlotRef) : k ∈ s.wiring.ready →
      Move s (.complete k) { s with wiring := s.wiring.complete k }
  | notify (q : Inc SlotRef) (w : Wiring SlotRef) : s.wiring.notifyStep q = some w →
      Move s (.notify q) (s.notifyStep c q w)

variable {c} {s s' : State}

private theorem orchStep_cases (h : s.orchStep c = some s') : OrchMove c s .orch s' := by
  unfold orchStep at h
  split at h
  · cases h; exact .allocLoad _ (by assumption)
  · obtain ⟨hw, ⟨⟩⟩ := ite_none_right_eq_some.mp h
    exact .commitTask _ _ (by assumption) hw
  · cases h; exact .storePending _ _ (by assumption)
  · cases h; exact .storeCompleted _ (by assumption)
  · cases h; exact .syncMap _ (by assumption)
  · cases h; exact .depsDone _ _ (by assumption)
  · cases h; exact .countProducer _ _ _ _ (by assumption)
  · cases h; exact .countDone _ _ (by assumption)
  · cases h; exact .pushWiring _ _ (by assumption)
  · cases h
  · cases h

private theorem threadStep_cases {a : Agent} (h : s.threadStep c a = some s') :
    ThreadMove c s a s' := by
  unfold threadStep at h
  split at h
  · cases h
  · cases h; exact .scopeDone (by assumption)
  · cases h; exact .scopeNext _ _ (by assumption)
  · rename_i x i n hpc
    split at h
    · rename_i hi
      split at h
      · rename_i p hp
        cases h; exact .taskNext x i n p hpc hi hp
      · cases h
    · rename_i hi
      cases h; exact .taskDone x i n hpc (Nat.le_of_not_lt hi)
  · cases h
  · cases h; exact .addRefcount _ _ _ (by assumption)
  · cases h; exact .loadRefcount _ _ (by assumption)
  · rename_i slot n k hpc
    split at h <;> cases h
    · exact .loadCount slot n k hpc
    · exact .return _ k hpc (.inl ⟨slot, n, rfl⟩)
  · rename_i slot k hpc
    split at h <;> cases h
    · exact .consumeSlot slot k hpc (by assumption)
    · exact .return _ k hpc (.inr (.inl ⟨slot, rfl⟩))
  · rename_i t k hpc
    split at h <;> cases h
    · exact .lockRing t k hpc (by assumption)
    · exact .return _ k hpc (.inr (.inr ⟨t, rfl, by assumption⟩))
  · cases h; exact .loadIndex _ _ (by assumption)
  · rename_i ring old index k hpc
    split at h <;> cases h
    · rename_i hp
      exact .passSlot ring old index k hpc hp.1 hp.2
    · exact .stopScan ring old index k hpc (by assumption)
  · cases h; exact .resetFanout _ _ _ (by assumption)
  · rename_i ring id k hpc
    split at h <;> cases h
    · exact .resetFanin ring id k hpc (by assumption)
    · exact .resetDone ring id k hpc (Nat.le_of_not_lt (by assumption))
  · cases h; exact .syncToSm _ _ (by assumption)
  · cases h; exact .unlockRing _ _ (by assumption)

private theorem beginSubmit_cases {act : Act} {top : List TaskId} {rest : List (List TaskId)}
    {hidden : Bool} (hs : s.scopes = top :: rest)
    (h : (if s.Ready then some (s.beginSubmit c top hidden) else none) = some s') :
    OrchMove c s act s' := by
  obtain ⟨hr, ⟨⟩⟩ := ite_none_right_eq_some.mp h
  unfold beginSubmit
  split
  · exact .beginSubmit act hidden hr (by rw [hs]; nofun)
  · exact .scopeFull act hr

/-- **Inversion.** -/
theorem step_cases {act : Act} (h : step c s act = some s') : Move c s act s' := by
  unfold step at h
  split at h
  · obtain ⟨hr, ⟨⟩⟩ := ite_none_right_eq_some.mp h
    exact .orch (.beginScope hr)
  · split at h
    · rename_i top rest hs
      obtain ⟨hr, ⟨⟩⟩ := ite_none_right_eq_some.mp h
      exact .orch (.endScope top rest hr hs)
    · cases h
  · split at h
    · exact .orch (beginSubmit_cases (by assumption) h)
    · cases h
  · split at h
    · exact .orch (beginSubmit_cases (by assumption) h)
    · cases h
  · exact .orch (orchStep_cases h)
  · split at h
    · cases h; exact .orch (.retry _ _ (by assumption))
    · cases h
  · split at h
    · cases h; exact .orch (.allocFails _ _ (by assumption))
    · cases h; exact .orch (.dropFanin _ _ (by assumption))
    · cases h
  · split at h
    · rename_i t fanin hpc
      obtain ⟨⟨hne, hlt, -⟩, ⟨⟩⟩ := ite_none_right_eq_some.mp h
      unfold record
      split
      · exact .orch (.appendedBefore _ _)
      · exact .orch (.appendFanin _ t fanin _ hpc hne hlt (by assumption))
    · cases h
  · exact .thread (threadStep_cases h)
  · obtain ⟨⟨hi, hx⟩, ⟨⟩⟩ := ite_none_right_eq_some.mp h
    exact .startRelease _ _ hi hx
  · obtain ⟨w, hw, rfl⟩ := map_eq_some_iff.mp h
    exact .wire w hw
  · obtain ⟨hk, ⟨⟩⟩ := ite_none_right_eq_some.mp h
    exact .complete _ hk
  · obtain ⟨w, hw, rfl⟩ := map_eq_some_iff.mp h
    exact .notify _ w hw

end State

end PtoRuntime.Tmrb
