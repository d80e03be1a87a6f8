import PtoRuntime.Tmrb.Runtime

/-!
# The dependency list pools

A fanout list is a linked list of `PTO2DepListEntry`s, one for each consumer that found
the producer unfinished when it was wired. The entries of a task come from the pool of the
task's ring. A pool is a ring of cells with two linear counters; `alloc` hands out the cell
at `top`, and the entries below `tail` are dead. `wire_task` leaves in the task's slot a
mark: the value of `top` after its last entry. When `drain_wiring_queue` finds too few free
cells, `reclaim` moves the tail to the mark that it finds in the slot of the youngest
retired task, provided that the watermark has moved by 64 ids since the last time.

The model has the orchestrator as far as it takes slots and fills the wiring queue, thread
0 in `drain_wiring_queue`, any number of threads in `on_mixed_task_complete`, and the
retirement of tasks. A step is one atomic operation, one lock section or one turn of a
loop; what only thread 0 reads and writes (the pools and the marks) goes with its step next
to it. When a completed task is consumed is left open. The watermark, the reset of the slot
and the publication of the watermark are one step, so a slot may be taken again earlier
than in the source, never later.

A fanin list may name any slots. A pushed task is completed at any time after the push. Ids
and the counters of a pool are `int32_t` in the source and stay below 2³¹.

Main results: `wiring_stalls_when_full`, `wiring_stalls_on_dead_entries`.
-/

namespace PtoRuntime.Tmrb

open Lib Function List Option

/-- The rings, and the capacity of their pools (`PTO2_RING_DEP_POOL`). -/
structure DepConfig where
  rings : Config
  depPoolSize : Nat

/-- `PTO2_DEP_POOL_CLEANUP_INTERVAL`. -/
def depPoolCleanupInterval : Nat := 64

/-- A pointer to an entry: a cell of the pool of a ring. -/
structure EntryRef where
  ring : Nat
  cell : Nat
  deriving DecidableEq, Repr

/-- `PTO2DepListEntry`. -/
structure DepListEntry where
  slotState : Option SlotRef
  next : Option EntryRef
  deriving DecidableEq, Repr

/-- `PTO2DepListPool`. -/
structure DepListPool where
  base : Nat → DepListEntry
  top : Nat
  tail : Nat
  lastReclaimed : Nat

namespace DepListPool

def init : DepListPool := ⟨fun _ => ⟨none, none⟩, 1, 1, 0⟩

def used (p : DepListPool) : Nat := p.top - p.tail

def available (capacity : Nat) (p : DepListPool) : Nat := capacity - p.used

def alloc (capacity : Nat) (p : DepListPool) : Option (Nat × DepListPool) :=
  if capacity ≤ p.used then none
  else some (p.top % capacity, { p with top := p.top + 1 })

def advanceTail (p : DepListPool) (newTail : Nat) : DepListPool :=
  if p.tail < newTail then { p with tail := newTail } else p

/-- `prepend`: the new entry, if there is space for one. -/
def prepend (capacity : Nat) (p : DepListPool) (cur : Option EntryRef) (slotState : SlotRef) :
    Option (Nat × DepListPool) :=
  match p.alloc capacity with
  | none => none
  | some (cell, p') =>
    some (cell, { p' with base := update p'.base cell ⟨some slotState, cur⟩ })

/-- `reclaim`; `depPoolMark n` is read in the slot of the task `n`. -/
def reclaim (p : DepListPool) (depPoolMark : Nat → Nat) (smLastTaskAlive : Nat) : DepListPool :=
  if p.lastReclaimed + depPoolCleanupInterval ≤ smLastTaskAlive ∧ 0 < smLastTaskAlive then
    let mark := depPoolMark (smLastTaskAlive - 1)
    let p' := if 0 < mark then p.advanceTail mark else p
    { p' with lastReclaimed := smLastTaskAlive }
  else p

variable {p p' : DepListPool} {capacity cell : Nat} {cur : Option EntryRef} {slotState : SlotRef}

theorem prepend_eq_some (h : p.prepend capacity cur slotState = some (cell, p')) :
    p.used < capacity ∧ cell = p.top % capacity ∧
      p' = { p with top := p.top + 1
                    base := update p.base (p.top % capacity) ⟨some slotState, cur⟩ } := by
  unfold prepend alloc at h
  by_cases hfull : capacity ≤ p.used
  · rw [if_pos hfull] at h
    cases h
  · rw [if_neg hfull] at h
    cases h
    exact ⟨Nat.lt_of_not_le hfull, rfl, rfl⟩

/-- What a reclaim that is not skipped makes of the tail. -/
theorem reclaim_eq (p : DepListPool) (mark : Nat → Nat) {lastAlive : Nat}
    (h : p.lastReclaimed + depPoolCleanupInterval ≤ lastAlive) :
    p.reclaim mark lastAlive =
      { p with tail := max p.tail (mark (lastAlive - 1)), lastReclaimed := lastAlive } := by
  have hpos : 0 < lastAlive := Nat.lt_of_lt_of_le (by decide) ((Nat.le_add_left _ _).trans h)
  unfold reclaim
  rw [if_pos ⟨h, hpos⟩]
  unfold advanceTail
  dsimp only
  split
  · split
    · rw [Nat.max_eq_right (by omega)]
    · rw [Nat.max_eq_left (by omega)]
  · rw [Nat.max_eq_left (by omega)]

theorem reclaim_eq_self (p : DepListPool) (mark : Nat → Nat) {lastAlive : Nat}
    (h : ¬p.lastReclaimed + depPoolCleanupInterval ≤ lastAlive) :
    p.reclaim mark lastAlive = p := by
  unfold reclaim
  rw [if_neg fun hc => h hc.1]

/-- The tail moves to the mark or stays, and nothing else that a list depends on moves. -/
theorem reclaim_cases (p : DepListPool) (mark : Nat → Nat) (lastAlive : Nat) :
    (p.reclaim mark lastAlive).top = p.top ∧ (p.reclaim mark lastAlive).base = p.base ∧
      ((p.reclaim mark lastAlive).tail = p.tail ∨
        0 < lastAlive ∧ (p.reclaim mark lastAlive).tail = max p.tail (mark (lastAlive - 1))) := by
  by_cases h : p.lastReclaimed + depPoolCleanupInterval ≤ lastAlive
  · rw [reclaim_eq p mark h]
    exact ⟨rfl, rfl, .inr ⟨Nat.lt_of_lt_of_le (by decide) ((Nat.le_add_left _ _).trans h), rfl⟩⟩
  · rw [reclaim_eq_self p mark h]
    exact ⟨rfl, rfl, .inl rfl⟩

end DepListPool

/-! ## The threads -/

/-- The orchestrator between two tasks, and between the two halves of `prepare_task`. -/
inductive SlotPc
  | idle
  | committed (t : TaskId)  -- the id is published
  | prepared (t : TaskId)   -- PENDING is stored
  deriving DecidableEq, Repr

def SlotPc.task? : SlotPc → Option TaskId
  | .idle => none
  | .committed t | .prepared t => some t

/-- Thread 0: between two tasks, or in `wire_task` with the producers left. -/
inductive LinkPc
  | idle
  | edges (t : TaskId) (todo : List SlotRef) (early : Nat)
  deriving DecidableEq, Repr

def LinkPc.task? : LinkPc → Option TaskId
  | .idle => none
  | .edges t _ _ => some t

/-- The loop of an `on_mixed_task_complete` call. -/
inductive WalkPc
  | notStarted
  | walk (current : Option EntryRef)
  | released (current : EntryRef)  -- the consumer is released, `next` is still to be read
  | returned
  deriving DecidableEq, Repr

/-- An entry by its linear number. -/
structure EntryNo where
  ring : Nat
  num : Nat
  deriving DecidableEq, Repr

structure Fanout where
  -- PTO2TaskSlotState, and the fanin list of its payload
  taskState : SlotRef → TaskState
  fanoutHead : SlotRef → Option EntryRef
  faninRefcount : SlotRef → Nat
  faninCount : SlotRef → Nat
  fanin : SlotRef → List SlotRef
  depPoolMark : SlotRef → Nat
  -- the rings
  currentTaskIndex : Nat → Nat
  lastTaskAlive : Nat → Nat
  depPool : Nat → DepListPool
  -- the wiring queue with the batch taken from it, the ready queues, the threads
  queue : List TaskId
  ready : List SlotRef
  orch : SlotPc
  wire : LinkPc
  walk : Inc SlotRef → WalkPc
  walking : List (Inc SlotRef)
  -- history
  tenant : SlotRef → Nat              -- the id a slot holds or will hold next
  log : EntryNo → DepListEntry          -- what an entry was written with
  owner : EntryNo → Nat                 -- the id of the task it was allocated for
  producer : EntryNo → Inc SlotRef      -- the slot in whose list it was put, for which id
  listed : SlotRef → List EntryNo       -- the entries of a fanout list
  left : Inc SlotRef → List EntryNo     -- the entries that a traversal has yet to read
  waiting : TaskId → List EntryNo       -- the entries of a task that have not released it
  marker : SlotRef → Option Nat       -- the id whose wiring stored the mark

inductive FanoutAct
  | commitTask (r : Nat)
  | storePending
  | submit (fanin : List SlotRef)
  | allocTensors
  | wire
  | complete (k : SlotRef)
  | walk (q : Inc SlotRef)
  | consume (k : SlotRef)
  | retire (r : Nat)
  deriving DecidableEq, Repr

variable {t : TaskId} {p : SlotRef} {todo : List SlotRef} {early cell : Nat} {pool : DepListPool}

namespace Fanout

def init : Fanout where
  taskState _ := .pending
  fanoutHead _ := none
  faninRefcount _ := 0
  faninCount _ := 0
  fanin _ := []
  depPoolMark _ := 0
  currentTaskIndex _ := 0
  lastTaskAlive _ := 0
  depPool _ := .init
  queue := []
  ready := []
  orch := .idle
  wire := .idle
  walk _ := .notStarted
  walking := []
  tenant k := k.idx
  log _ := ⟨none, none⟩
  owner _ := 0
  producer _ := (⟨0, 0⟩, 0)
  listed _ := []
  left _ := []
  waiting _ := []
  marker _ := none

variable (c : DepConfig)

/-! ## The orchestrator -/

/-- `commit_task` publishes the next id. -/
def commitTask (s : Fanout) (r : Nat) : Fanout :=
  { s with
    currentTaskIndex := update s.currentTaskIndex r (s.currentTaskIndex r + 1)
    orch := .committed ⟨r, s.currentTaskIndex r⟩ }

/-- The end of `prepare_task`. -/
def storePending (s : Fanout) (t : TaskId) : Fanout :=
  { s with
    taskState := update s.taskState (c.rings.slot t) .pending
    orch := .prepared t }

/-- The end of `submit_task_common`, for tasks and for dummy tasks. -/
def submit (s : Fanout) (t : TaskId) (fanin : List SlotRef) : Fanout :=
  { s with
    fanin := update s.fanin (c.rings.slot t) fanin
    queue := s.queue ++ [t]
    orch := .idle }

/-- The end of `alloc_tensors`: the task is completed inline, and never wired. -/
def allocTensors (s : Fanout) (t : TaskId) : Fanout :=
  { s with
    taskState := update s.taskState (c.rings.slot t) .completed
    fanin := update s.fanin (c.rings.slot t) []
    orch := .idle }

/-! ## Thread 0 -/

/-- `payload->fanin_actual_count`. -/
def wfanin (s : Fanout) (t : TaskId) : Nat := (s.fanin (c.rings.slot t)).length

/-- `wfanin > 0 && rss.dep_pool.available() < wfanin`. -/
def Short (s : Fanout) (t : TaskId) : Prop :=
  0 < s.wfanin c t ∧ (s.depPool t.ring).available c.depPoolSize < s.wfanin c t

instance (s : Fanout) (t : TaskId) : Decidable (s.Short c t) := inferInstanceAs (Decidable (_ ∧ _))

/-- `rss.dep_pool.reclaim(*rss.ring, rss.last_task_alive)`. -/
def reclaim (s : Fanout) (r : Nat) : Fanout :=
  { s with
    depPool := update s.depPool r
      ((s.depPool r).reclaim (fun n => s.depPoolMark (c.rings.slot ⟨r, n⟩)) (s.lastTaskAlive r)) }

/-- `wire_task` is entered. -/
def wireStart (s : Fanout) (t : TaskId) (rest : List TaskId) : Fanout :=
  { s with
    queue := rest
    faninCount := update s.faninCount (c.rings.slot t) (s.wfanin c t + 1)
    wire := .edges t (s.fanin (c.rings.slot t)) 0 }

def wireEarly (s : Fanout) (t : TaskId) (todo : List SlotRef) (early : Nat) : Fanout :=
  { s with wire := .edges t todo (early + 1) }

/-- The lock section of `wire_task` on an unfinished producer, with the new entry. -/
def linkEntry (s : Fanout) (t : TaskId) (p : SlotRef) (todo : List SlotRef) (early cell : Nat)
    (pool : DepListPool) : Fanout :=
  let x : EntryNo := ⟨t.ring, (s.depPool t.ring).top⟩
  { s with
    fanoutHead := update s.fanoutHead p (some ⟨t.ring, cell⟩)
    depPool := update s.depPool t.ring pool
    wire := .edges t todo early
    log := update s.log x ⟨some (c.rings.slot t), s.fanoutHead p⟩
    owner := update s.owner x t.loc
    producer := update s.producer x (p, s.tenant p)
    listed := update s.listed p (x :: s.listed p)
    waiting := update s.waiting t (x :: s.waiting t) }

/-- The same when `prepend` returns null: the list is lost. -/
def loseList (s : Fanout) (t : TaskId) (p : SlotRef) (todo : List SlotRef) (early : Nat) : Fanout :=
  { s with
    fanoutHead := update s.fanoutHead p none
    wire := .edges t todo early
    listed := update s.listed p [] }

/-- The end of `wire_task`. Without producers the test holds anyway, as in the source. -/
def wireSeed (s : Fanout) (t : TaskId) (early : Nat) : Fanout :=
  let k := c.rings.slot t
  { s with
    faninRefcount := update s.faninRefcount k (s.faninRefcount k + (early + 1))
    ready := if s.faninCount k ≤ s.faninRefcount k + (early + 1) then k :: s.ready else s.ready
    depPoolMark := update s.depPoolMark k (s.depPool t.ring).top
    marker := update s.marker k (some t.loc)
    wire := .idle }

/-- A turn of the loop of `drain_wiring_queue`, or a step inside `wire_task`. -/
def wireStep (s : Fanout) : Option Fanout :=
  match s.wire with
  | .idle =>
    match s.queue with
    | [] => none
    | t :: rest =>
      if s.Short c t then
        -- not enough space even now: the loop is left
        if (s.reclaim c t.ring).Short c t then some (s.reclaim c t.ring)
        else some ((s.reclaim c t.ring).wireStart c t rest)
      else some (s.wireStart c t rest)
  | .edges t (p :: todo) early =>
    if (s.taskState p).finished then some (s.wireEarly t todo early)
    else
      match (s.depPool t.ring).prepend c.depPoolSize (s.fanoutHead p) (c.rings.slot t) with
      | none => some (s.loseList t p todo early)
      | some (cell, pool) => some (s.linkEntry c t p todo early cell pool)
  | .edges t [] early => some (s.wireSeed c t early)

/-! ## Completion -/

/-- The lock section of `on_mixed_task_complete`. -/
def complete (s : Fanout) (k : SlotRef) : Fanout :=
  { s with
    taskState := update s.taskState k .completed
    ready := s.ready.erase k
    walk := update s.walk (k, s.tenant k) (.walk (s.fanoutHead k))
    walking := (k, s.tenant k) :: s.walking
    left := update s.left (k, s.tenant k) (s.listed k) }

/-- `release_fanin_and_check_ready` on the consumer `k` read in the entry. -/
def release (s : Fanout) (q : Inc SlotRef) (e : EntryRef) (k : SlotRef) : Fanout :=
  let t : TaskId := ⟨k.ring, s.tenant k⟩
  { s with
    faninRefcount := update s.faninRefcount k (s.faninRefcount k + 1)
    ready := if s.faninRefcount k + 1 = s.faninCount k then k :: s.ready else s.ready
    walk := update s.walk q (.released e)
    waiting := update s.waiting t ((s.left q).head?.elim (s.waiting t) (s.waiting t).erase) }

/-- `current = current->next`. -/
def readNext (s : Fanout) (q : Inc SlotRef) (e : EntryRef) : Fanout :=
  { s with
    walk := update s.walk q (.walk ((s.depPool e.ring).base e.cell).next)
    left := update s.left q (s.left q).tail }

def walkReturn (s : Fanout) (q : Inc SlotRef) : Fanout :=
  { s with
    walk := update s.walk q .returned
    walking := s.walking.erase q }

def walkStep (s : Fanout) (q : Inc SlotRef) : Option Fanout :=
  match s.walk q with
  | .walk none => some (s.walkReturn q)
  | .walk (some e) =>
    match ((s.depPool e.ring).base e.cell).slotState with
    | none => none
    | some k => some (s.release q e k)
  | .released e => some (s.readNext q e)
  | _ => none

/-! ## Consumption and retirement -/

def consume (s : Fanout) (k : SlotRef) : Fanout :=
  { s with taskState := update s.taskState k .consumed }

/-- One turn of `advance_ring_pointers`, with `reset_for_reuse` of the slot. -/
def retire (s : Fanout) (r : Nat) : Fanout :=
  let n := s.lastTaskAlive r
  let k := c.rings.slot ⟨r, n⟩
  { s with
    lastTaskAlive := update s.lastTaskAlive r (n + 1)
    fanoutHead := update s.fanoutHead k none
    faninRefcount := update s.faninRefcount k 0
    tenant := update s.tenant k (n + (c.rings r).windowSize)
    listed := update s.listed k [] }

def step (s : Fanout) : FanoutAct → Option Fanout
  | .commitTask r =>
    if s.orch = .idle ∧ s.currentTaskIndex r - s.lastTaskAlive r + 1 < (c.rings r).windowSize
    then some (s.commitTask r) else none
  | .storePending =>
    match s.orch with
    | .committed t => some (s.storePending c t)
    | _ => none
  | .submit fanin =>
    match s.orch with
    | .prepared t => some (s.submit c t fanin)
    | _ => none
  | .allocTensors =>
    match s.orch with
    | .prepared t => some (s.allocTensors c t)
    | _ => none
  | .wire => s.wireStep c
  | .complete k => if k ∈ s.ready then some (s.complete k) else none
  | .walk q => s.walkStep q
  | .consume k => if s.taskState k = .completed then some (s.consume k) else none
  | .retire r =>
    if s.lastTaskAlive r < s.currentTaskIndex r ∧
        s.taskState (c.rings.slot ⟨r, s.lastTaskAlive r⟩) = .consumed
    then some (s.retire c r) else none

/-- What one step does to a state, with the facts it was taken under. -/
inductive Move (s : Fanout) : FanoutAct → Fanout → Prop
  | commitTask (r : Nat) : s.orch = .idle →
      s.currentTaskIndex r - s.lastTaskAlive r + 1 < (c.rings r).windowSize →
      Move s (.commitTask r) (s.commitTask r)
  | storePending (t : TaskId) : s.orch = .committed t → Move s .storePending (s.storePending c t)
  | submit (t : TaskId) (fanin : List SlotRef) : s.orch = .prepared t →
      Move s (.submit fanin) (s.submit c t fanin)
  | allocTensors (t : TaskId) : s.orch = .prepared t → Move s .allocTensors (s.allocTensors c t)
  | stall (t : TaskId) (rest : List TaskId) : s.wire = .idle → s.queue = t :: rest →
      s.Short c t → (s.reclaim c t.ring).Short c t → Move s .wire (s.reclaim c t.ring)
  | reclaimStart (t : TaskId) (rest : List TaskId) : s.wire = .idle → s.queue = t :: rest →
      s.Short c t → ¬(s.reclaim c t.ring).Short c t →
      Move s .wire ((s.reclaim c t.ring).wireStart c t rest)
  | wireStart (t : TaskId) (rest : List TaskId) : s.wire = .idle → s.queue = t :: rest →
      ¬s.Short c t → Move s .wire (s.wireStart c t rest)
  | wireEarly (t : TaskId) (p : SlotRef) (todo : List SlotRef) (early : Nat) :
      s.wire = .edges t (p :: todo) early → Move s .wire (s.wireEarly t todo early)
  | linkEntry (t : TaskId) (p : SlotRef) (todo : List SlotRef) (early cell : Nat)
      (pool : DepListPool) : s.wire = .edges t (p :: todo) early → s.taskState p = .pending →
      (s.depPool t.ring).prepend c.depPoolSize (s.fanoutHead p) (c.rings.slot t) =
        some (cell, pool) →
      Move s .wire (s.linkEntry c t p todo early cell pool)
  | loseList (t : TaskId) (p : SlotRef) (todo : List SlotRef) (early : Nat) :
      s.wire = .edges t (p :: todo) early →
      (s.depPool t.ring).prepend c.depPoolSize (s.fanoutHead p) (c.rings.slot t) = none →
      Move s .wire (s.loseList t p todo early)
  | wireSeed (t : TaskId) (early : Nat) : s.wire = .edges t [] early →
      Move s .wire (s.wireSeed c t early)
  | complete (k : SlotRef) : k ∈ s.ready → Move s (.complete k) (s.complete k)
  | walkReturn (q : Inc SlotRef) : s.walk q = .walk none → Move s (.walk q) (s.walkReturn q)
  | release (q : Inc SlotRef) (e : EntryRef) (k : SlotRef) : s.walk q = .walk (some e) →
      ((s.depPool e.ring).base e.cell).slotState = some k → Move s (.walk q) (s.release q e k)
  | readNext (q : Inc SlotRef) (e : EntryRef) : s.walk q = .released e →
      Move s (.walk q) (s.readNext q e)
  | consume (k : SlotRef) : s.taskState k = .completed → Move s (.consume k) (s.consume k)
  | retire (r : Nat) : s.lastTaskAlive r < s.currentTaskIndex r →
      s.taskState (c.rings.slot ⟨r, s.lastTaskAlive r⟩) = .consumed →
        Move s (.retire r) (s.retire c r)

variable {c} {s s' : Fanout}

/-- What the wiring thread can do. -/
theorem wireStep_cases (h : s.wireStep c = some s') : Move c s .wire s' := by
  unfold wireStep at h
  split at h
  · rename_i hw
    split at h
    · cases h
    · rename_i t rest hq
      split at h
      · rename_i hshort
        split at h <;> cases h
        · rename_i hstill
          exact .stall t rest hw hq hshort hstill
        · rename_i hnow
          exact .reclaimStart t rest hw hq hshort hnow
      · rename_i hroom
        cases h
        exact .wireStart t rest hw hq hroom
  · rename_i t p todo early hw
    split_ifs at h with hp
    · cases h
      exact .wireEarly t p todo early hw
    · have hpending : s.taskState p = .pending := by
        cases hs : s.taskState p <;> simp_all [TaskState.finished]
      split at h <;> cases h
      · rename_i hnull
        exact .loseList t p todo early hw hnull
      · rename_i cell pool hsome
        exact .linkEntry t p todo early cell pool hw hpending hsome
  · rename_i t early hw
    cases h
    exact .wireSeed t early hw

/-- What a completing thread can do. -/
theorem walkStep_cases {q : Inc SlotRef} (h : s.walkStep q = some s') : Move c s (.walk q) s' := by
  unfold walkStep at h
  split at h
  · rename_i hq
    cases h
    exact .walkReturn q hq
  · rename_i e hq
    split at h <;> cases h
    rename_i k hk
    exact .release q e k hq hk
  · rename_i e hq
    cases h
    exact .readNext q e hq
  · cases h

/-- **Inversion.** Every invariant is proved move by move. -/
theorem step_cases {a : FanoutAct} (h : s.step c a = some s') : Move c s a s' := by
  cases a with
  | commitTask r =>
    obtain ⟨⟨ho, hr⟩, ⟨⟩⟩ := ite_none_right_eq_some.mp h
    exact .commitTask r ho hr
  | storePending =>
    cases ho : s.orch <;> rw [step, ho] at h <;> cases h
    exact .storePending _ ho
  | submit fanin =>
    cases ho : s.orch <;> rw [step, ho] at h <;> cases h
    exact .submit _ fanin ho
  | allocTensors =>
    cases ho : s.orch <;> rw [step, ho] at h <;> cases h
    exact .allocTensors _ ho
  | wire => exact wireStep_cases h
  | complete k =>
    obtain ⟨hk, ⟨⟩⟩ := ite_none_right_eq_some.mp h
    exact .complete k hk
  | walk q => exact walkStep_cases h
  | consume k =>
    obtain ⟨hk, ⟨⟩⟩ := ite_none_right_eq_some.mp h
    exact .consume k hk
  | retire r =>
    obtain ⟨⟨hlt, hk⟩, ⟨⟩⟩ := ite_none_right_eq_some.mp h
    exact .retire r hlt hk

/-! ## The order of wiring -/

/-- The tasks with a slot whose wiring has not ended, oldest first. -/
def pipeline (s : Fanout) : List TaskId := s.wire.task?.toList ++ s.queue ++ s.orch.task?.toList

/-- A task that is not older than anything that has been wired on its ring. -/
def Behind (s : Fanout) (t : TaskId) : Prop :=
  t.loc < s.currentTaskIndex t.ring ∧
    (∀ l, 1 ≤ l → l < (s.depPool t.ring).top → s.owner ⟨t.ring, l⟩ ≤ t.loc) ∧
    ∀ k n, k.ring = t.ring → s.marker k = some n → n < t.loc

/-- The tasks of a ring are wired in the order of their ids, so a mark separates the
entries of the tasks up to the one that left it from the entries of later tasks. -/
structure Order (c : DepConfig) (s : Fanout) : Prop where
  pairwise : s.pipeline.Pairwise fun a b => a.ring = b.ring → a.loc < b.loc
  behind : ∀ t ∈ s.pipeline, s.Behind t
  owner_lt : ∀ r l, 1 ≤ l → l < (s.depPool r).top → s.owner ⟨r, l⟩ < s.currentTaskIndex r
  marker_lt : ∀ k n, s.marker k = some n → n < s.currentTaskIndex k.ring
  marker_slot : ∀ k n, s.marker k = some n → c.rings.slot ⟨k.ring, n⟩ = k
  unmarked : ∀ k, s.marker k = none → s.depPoolMark k = 0
  mark_le : ∀ k, s.depPoolMark k ≤ (s.depPool k.ring).top
  marked : ∀ k n, s.marker k = some n → ∀ l, 1 ≤ l → l < (s.depPool k.ring).top →
    (l < s.depPoolMark k ↔ s.owner ⟨k.ring, l⟩ ≤ n)
  tail_pos : ∀ r, 1 ≤ (s.depPool r).tail

/-- Below the top after a new entry there are the new entry and the old ones. -/
theorem lt_top_linkEntry (htop : pool.top = (s.depPool t.ring).top + 1) {r l : Nat}
    (hl : l < ((s.linkEntry c t p todo early cell pool).depPool r).top) :
    r = t.ring ∧ l = (s.depPool t.ring).top ∧
        (s.linkEntry c t p todo early cell pool).owner ⟨r, l⟩ = t.loc ∨
      l < (s.depPool r).top ∧
        (s.linkEntry c t p todo early cell pool).owner ⟨r, l⟩ = s.owner ⟨r, l⟩ := by
  replace hl : l < (update s.depPool t.ring pool r).top := hl
  by_cases hnew : (⟨r, l⟩ : EntryNo) = ⟨t.ring, (s.depPool t.ring).top⟩
  · obtain ⟨rfl, rfl⟩ := EntryNo.mk.inj hnew
    exact .inl ⟨rfl, rfl, update_self ..⟩
  · refine .inr ⟨?_, update_of_ne hnew _ _⟩
    by_cases hr : r = t.ring
    · subst hr
      rw [update_self, htop] at hl
      exact (Nat.lt_succ_iff_lt_or_eq.mp hl).resolve_right fun he => hnew (by rw [he])
    · rwa [update_of_ne hr] at hl

theorem top_le_linkEntry (htop : pool.top = (s.depPool t.ring).top + 1) (r : Nat) :
    (s.depPool r).top ≤ ((s.linkEntry c t p todo early cell pool).depPool r).top :=
  (forall_update_iff s.depPool fun r p => (s.depPool r).top ≤ p.top).mpr
    ⟨htop ▸ Nat.le_succ _, fun _ _ => le_rfl⟩ r

namespace Order

theorem init : Order c Fanout.init where
  pairwise := .nil
  behind t ht := absurd ht not_mem_nil
  owner_lt r l hpos hlt := absurd hlt (not_lt.mpr hpos)
  marker_lt k n h := by cases h
  marker_slot k n h := by cases h
  unmarked _ _ := rfl
  mark_le _ := Nat.zero_le _
  marked k n h := by cases h
  tail_pos _ := le_refl 1

theorem commitTask (h : Order c s) {r : Nat} (ho : s.orch = .idle) :
    Order c (s.commitTask r) := by
  have hp : (s.commitTask r).pipeline = s.pipeline ++ [⟨r, s.currentTaskIndex r⟩] := by
    simp [pipeline, Fanout.commitTask, SlotPc.task?, ho]
  have hcur : ∀ r', s.currentTaskIndex r' ≤ (s.commitTask r).currentTaskIndex r' :=
    (forall_update_iff _ fun r' n => s.currentTaskIndex r' ≤ n).mpr
      ⟨Nat.le_succ _, fun _ _ => le_rfl⟩
  refine { h with
    pairwise := ?_
    behind := ?_
    owner_lt := fun r' l hpos hlt => (h.owner_lt r' l hpos hlt).trans_le (hcur r')
    marker_lt := fun k n hk => (h.marker_lt k n hk).trans_le (hcur k.ring) }
  · rw [hp, pairwise_append]
    refine ⟨h.pairwise, pairwise_singleton _ _, fun a ha b hb hab => ?_⟩
    obtain rfl := mem_singleton.mp hb
    dsimp only at hab
    rw [← hab]
    exact (h.behind a ha).1
  · intro t ht
    rw [hp, mem_append] at ht
    rcases ht with ht | ht
    · obtain ⟨hlt, hrest⟩ := h.behind t ht
      exact ⟨hlt.trans_le (hcur t.ring), hrest⟩
    · -- the new id is larger than any before
      obtain rfl := mem_singleton.mp ht
      refine ⟨?_, fun l hpos hlt => (h.owner_lt r l hpos hlt).le, fun k n hk hn => ?_⟩
      · show s.currentTaskIndex r < update s.currentTaskIndex r _ r
        rw [update_self]
        exact Nat.lt_succ_self _
      · dsimp only at hk
        have := h.marker_lt k n hn
        rwa [hk] at this

/-- Nothing but the pipeline has changed, and that has lost some of its tasks at most. -/
theorem shrink (h : Order c s) (orch : SlotPc) (wire : LinkPc) (queue : List TaskId)
    (hp : (wire.task?.toList ++ queue ++ orch.task?.toList).Sublist s.pipeline) :
    Order c { s with orch := orch, wire := wire, queue := queue } :=
  { h with
    pairwise := h.pairwise.sublist hp
    behind := fun t ht => h.behind t (hp.subset ht) }

theorem reclaim (h : Order c s) (r : Nat) : Order c (s.reclaim c r) := by
  obtain ⟨pool, hpool⟩ : ∃ pool, (s.depPool r).reclaim
      (fun n => s.depPoolMark (c.rings.slot ⟨r, n⟩)) (s.lastTaskAlive r) = pool := ⟨_, rfl⟩
  obtain ⟨htop, -, htail⟩ := (s.depPool r).reclaim_cases
    (fun n => s.depPoolMark (c.rings.slot ⟨r, n⟩)) (s.lastTaskAlive r)
  have hstep : s.reclaim c r = { s with depPool := update s.depPool r pool } := by
    rw [Fanout.reclaim, hpool]
  rw [hpool] at htop htail
  have htops : ∀ r', (update s.depPool r pool r').top = (s.depPool r').top :=
    (forall_update_iff s.depPool fun r' p => p.top = (s.depPool r').top).mpr
      ⟨htop, fun _ _ => rfl⟩
  rw [hstep]
  refine { h with
    behind := fun t ht => ?_
    owner_lt := fun r' l hpos hlt => h.owner_lt r' l hpos ((htops r') ▸ hlt)
    mark_le := fun k => (h.mark_le k).trans_eq (htops k.ring).symm
    marked := fun k n hk l hpos hlt => h.marked k n hk l hpos ((htops k.ring) ▸ hlt)
    tail_pos := (forall_update_iff s.depPool fun _ p => 1 ≤ p.tail).mpr
      ⟨?_, fun r' _ => h.tail_pos r'⟩ }
  · obtain ⟨hlt, howner, hmarker⟩ := h.behind t ht
    exact ⟨hlt, fun l hpos hl => howner l hpos ((htops t.ring) ▸ hl), hmarker⟩
  · have := h.tail_pos r
    rcases htail with htail | ⟨-, htail⟩ <;> omega

theorem wireStart (h : Order c s) {rest : List TaskId} (hw : s.wire = .idle)
    (hq : s.queue = t :: rest) : Order c (s.wireStart c t rest) := by
  refine { h.shrink s.orch (.edges t (s.fanin (c.rings.slot t)) 0) rest ?_ with }
  simp [pipeline, LinkPc.task?, hw, hq]

/-- The new entry belongs to the oldest task of the pipeline. -/
theorem linkEntry (h : Order c s) (hw : s.wire = .edges t (p :: todo) early)
    (htop : pool.top = (s.depPool t.ring).top + 1) (htail : pool.tail = (s.depPool t.ring).tail) :
    Order c (s.linkEntry c t p todo early cell pool) := by
  have hp : (s.linkEntry c t p todo early cell pool).pipeline = s.pipeline := by
    simp only [pipeline, Fanout.linkEntry, LinkPc.task?, hw]
  have hfirst : ∀ t' ∈ s.pipeline, t'.ring = t.ring → t.loc ≤ t'.loc := by
    intro t' ht' hring
    have hpair := h.pairwise
    simp only [pipeline, hw, LinkPc.task?, Option.toList_some, cons_append, nil_append,
      mem_cons, pairwise_cons] at hpair ht'
    rcases ht' with rfl | ht'
    · exact le_rfl
    · exact (hpair.1 t' ht' hring.symm).le
  obtain ⟨hlt, -, hmarkers⟩ := h.behind t (by simp [pipeline, LinkPc.task?, hw])
  refine { h with
    pairwise := hp ▸ h.pairwise
    behind := fun t' ht' => ?_
    owner_lt := fun r l hpos hl => ?_
    mark_le := fun k => (h.mark_le k).trans (top_le_linkEntry htop k.ring)
    marked := fun k n hk l hpos hl => ?_
    tail_pos := (forall_update_iff s.depPool fun _ p => 1 ≤ p.tail).mpr
      ⟨htail ▸ h.tail_pos _, fun r _ => h.tail_pos r⟩ }
  · rw [hp] at ht'
    obtain ⟨hlt', hle', hmarkers'⟩ := h.behind t' ht'
    refine ⟨hlt', fun l hpos hl => ?_, hmarkers'⟩
    rcases lt_top_linkEntry htop hl with ⟨hring, -, howner⟩ | ⟨hl, howner⟩
    · exact howner ▸ hfirst t' ht' hring
    · exact howner ▸ hle' l hpos hl
  · rcases lt_top_linkEntry htop hl with ⟨rfl, -, howner⟩ | ⟨hl, howner⟩
    · exact howner ▸ hlt
    · exact howner ▸ h.owner_lt r l hpos hl
  · rcases lt_top_linkEntry htop hl with ⟨hring, rfl, howner⟩ | ⟨hl, howner⟩
    · -- marks are at most the old top, and left by tasks older than the one in wiring
      rw [howner]
      have hmark : s.depPoolMark k ≤ (s.depPool t.ring).top := hring ▸ h.mark_le k
      exact iff_of_false (not_lt.mpr hmark) (not_le.mpr (hmarkers k n hring hk))
    · rw [howner]
      exact h.marked k n hk l hpos hl

theorem wireSeed (h : Order c s) (hw : s.wire = .edges t [] early) :
    Order c (s.wireSeed c t early) := by
  have hp : s.pipeline = t :: (s.wireSeed c t early).pipeline := by
    simp [pipeline, Fanout.wireSeed, LinkPc.task?, hw]
  have hpair := h.pairwise
  rw [hp, pairwise_cons] at hpair
  obtain ⟨hlt, hle, hmarkers⟩ := h.behind t (hp ▸ mem_cons_self)
  -- the mark of the task that has been wired, or an old one
  have hcases : ∀ k n, (s.wireSeed c t early).marker k = some n →
      k = c.rings.slot t ∧ n = t.loc ∨ k ≠ c.rings.slot t ∧ s.marker k = some n := by
    intro k n hk
    by_cases hkt : k = c.rings.slot t
    · subst hkt
      have hk' : update s.marker (c.rings.slot t) (some t.loc) (c.rings.slot t) = some n := hk
      rw [update_self] at hk'
      exact .inl ⟨rfl, (some.inj hk').symm⟩
    · exact .inr ⟨hkt, (update_of_ne hkt _ _).symm.trans hk⟩
  refine { h with
    pairwise := hpair.2
    behind := fun t' ht' => ?_
    marker_lt := fun k n hk => ?_
    marker_slot := fun k n hk => ?_
    unmarked := fun k hk => ?_
    mark_le := (forall_update_iff s.depPoolMark fun k m => m ≤ (s.depPool k.ring).top).mpr
      ⟨le_rfl, fun k _ => h.mark_le k⟩
    marked := fun k n hk l hpos hl => ?_ }
  · obtain ⟨hlt', hle', hmarkers'⟩ := h.behind t' (hp ▸ mem_cons_of_mem _ ht')
    refine ⟨hlt', hle', fun k n hring hk => ?_⟩
    rcases hcases k n hk with ⟨rfl, rfl⟩ | ⟨-, hk⟩
    · exact hpair.1 t' ht' hring
    · exact hmarkers' k n hring hk
  · rcases hcases k n hk with ⟨rfl, rfl⟩ | ⟨-, hk⟩
    · exact hlt
    · exact h.marker_lt k n hk
  · rcases hcases k n hk with ⟨rfl, rfl⟩ | ⟨-, hk⟩
    · rfl
    · exact h.marker_slot k n hk
  · have hkt : k ≠ c.rings.slot t := by
      rintro rfl
      rw [show (s.wireSeed c t early).marker (c.rings.slot t) = some t.loc from
        update_self ..] at hk
      cases hk
    have hold : s.marker k = none := (update_of_ne hkt _ _).symm.trans hk
    exact (update_of_ne hkt _ _).trans (h.unmarked k hold)
  · show l < update s.depPoolMark (c.rings.slot t) _ k ↔ _
    rcases hcases k n hk with ⟨rfl, rfl⟩ | ⟨hkt, hk⟩
    · rw [update_self]
      exact iff_of_true hl (hle l hpos hl)
    · rw [update_of_ne hkt]
      exact h.marked k n hk l hpos hl

theorem move (h : Order c s) {a : FanoutAct} (hm : Move c s a s') : Order c s' := by
  cases hm with
  | commitTask r ho _ => exact h.commitTask ho
  | storePending t ho =>
    refine { h.shrink (.prepared t) s.wire s.queue ?_ with }
    simp [pipeline, SlotPc.task?, ho]
  | submit t fanin ho =>
    refine { h.shrink .idle s.wire (s.queue ++ [t]) ?_ with }
    simp [pipeline, SlotPc.task?, ho]
  | allocTensors t ho =>
    refine { h.shrink .idle s.wire s.queue ?_ with }
    simp [pipeline, SlotPc.task?]
  | stall t rest hw hq _ _ => exact h.reclaim t.ring
  | reclaimStart t rest hw hq _ _ => exact (h.reclaim t.ring).wireStart hw hq
  | wireStart t rest hw hq _ => exact h.wireStart hw hq
  | wireEarly t p todo early hw =>
    refine { h.shrink s.orch (.edges t todo (early + 1)) s.queue ?_ with }
    simp [pipeline, LinkPc.task?, hw]
  | linkEntry t p todo early cell pool hw _ hpool =>
    obtain ⟨-, -, rfl⟩ := DepListPool.prepend_eq_some hpool
    exact h.linkEntry hw rfl rfl
  | loseList t p todo early hw _ =>
    refine { h.shrink s.orch (.edges t todo early) s.queue ?_ with }
    simp [pipeline, LinkPc.task?, hw]
  | wireSeed t early hw => exact h.wireSeed hw
  | complete k _ => exact { h with }
  | walkReturn q _ => exact { h with }
  | release q e k _ _ => exact { h with }
  | readNext q e _ => exact { h with }
  | consume k _ => exact { h with }
  | retire r _ _ => exact { h with }

end Order

/-- Entries are in order in every run. -/
theorem Order.reach (h : Reach (step c) free Fanout.init s) : Order c s :=
  h.invariant Order.init fun _ _ _ _ hs _ hstep => hs.move (step_cases hstep)

/-! ## Stalling -/

/-- The entries of a ring's pool that were allocated for tasks not yet retired. -/
def aliveEntries (s : Fanout) (r : Nat) : Nat :=
  (List.range' 1 ((s.depPool r).top - 1)).countP fun l => s.lastTaskAlive r ≤ s.owner ⟨r, l⟩

variable (c) in
/-- `drain_wiring_queue` leaves the next task of the queue unwired. -/
def Stalls (s : Fanout) (t : TaskId) : Prop :=
  s.wire = .idle ∧ s.queue.head? = some t ∧ s.Short c t ∧ (s.reclaim c t.ring).Short c t

instance (s : Fanout) (t : TaskId) : Decidable (s.Stalls c t) :=
  inferInstanceAs (Decidable (_ ∧ _ ∧ _ ∧ _))

variable (c) in
/-- The tail can be brought up to date: no task has retired yet, or else the slot of the
youngest retired task has that task's own mark, and either the reclaim is not skipped or
the tail stands at that mark already. -/
def UpToDate (s : Fanout) (r : Nat) : Prop :=
  s.lastTaskAlive r = 0 ∨
    s.marker (c.rings.slot ⟨r, s.lastTaskAlive r - 1⟩) = some (s.lastTaskAlive r - 1) ∧
      ((s.depPool r).lastReclaimed + depPoolCleanupInterval ≤ s.lastTaskAlive r ∨
        s.depPoolMark (c.rings.slot ⟨r, s.lastTaskAlive r - 1⟩) ≤ (s.depPool r).tail)

instance (s : Fanout) (r : Nat) : Decidable (s.UpToDate c r) :=
  inferInstanceAs (Decidable (_ ∨ _ ∧ (_ ∨ _)))

/-- If all entries from `tail` on are alive, there are at least that many. -/
theorem le_aliveEntries {r tail : Nat} (hpos : 1 ≤ tail)
    (h : ∀ l, tail ≤ l → l < (s.depPool r).top → s.lastTaskAlive r ≤ s.owner ⟨r, l⟩) :
    (s.depPool r).top - tail ≤ s.aliveEntries r := by
  by_cases hle : tail ≤ (s.depPool r).top
  · unfold aliveEntries
    rw [show (s.depPool r).top - 1 = (tail - 1) + ((s.depPool r).top - tail) by omega,
      ← range'_append_1, countP_append, show 1 + (tail - 1) = tail by omega]
    refine le_trans (le_of_eq ?_) (Nat.le_add_left _ _)
    rw [countP_eq_length.mpr, length_range']
    intro l hl
    obtain ⟨hlo, hhi⟩ := mem_range'_1.mp hl
    exact decide_eq_true (h l hlo (by omega))
  · omega

/-- After the reclaim, where the tail can be brought up to date, only entries of unretired
tasks are left. -/
theorem Order.alive_of_tail_le (h : Order c s) {r : Nat} (hup : s.UpToDate c r) (l : Nat)
    (hl : ((s.reclaim c r).depPool r).tail ≤ l) (htop : l < (s.depPool r).top) :
    s.lastTaskAlive r ≤ s.owner ⟨r, l⟩ := by
  have hpool : (s.reclaim c r).depPool r = (s.depPool r).reclaim
      (fun n => s.depPoolMark (c.rings.slot ⟨r, n⟩)) (s.lastTaskAlive r) := update_self ..
  have hpos : 1 ≤ l := ((h.reclaim r).tail_pos r).trans hl
  rcases hup with hzero | ⟨hmarker, hdue⟩
  · omega
  · have hmark : s.depPoolMark (c.rings.slot ⟨r, s.lastTaskAlive r - 1⟩) ≤ l := by
      rw [hpool] at hl
      by_cases hskip : (s.depPool r).lastReclaimed + depPoolCleanupInterval ≤ s.lastTaskAlive r
      · rw [DepListPool.reclaim_eq _ _ hskip] at hl
        exact (le_max_right _ _).trans hl
      · rw [DepListPool.reclaim_eq_self _ _ hskip] at hl
        exact (hdue.resolve_left hskip).trans hl
    -- the entry lies behind the mark of the youngest retired task
    have hlater := mt (h.marked _ _ hmarker l hpos htop).mpr (not_lt.mpr hmark)
    have : ¬s.owner ⟨r, l⟩ ≤ s.lastTaskAlive r - 1 := hlater
    omega

/--
**Stalling.** In every execution: where the tail can be brought up to date,
`drain_wiring_queue` leaves a task unwired for lack of space only if the entries allocated
for the unretired tasks of its ring, together with its own fanin count, exceed the capacity.
-/
theorem wiring_stalls_when_full (c : DepConfig) {s : Fanout} {t : TaskId}
    (h : Reach (step c) free init s) (hstall : s.Stalls c t) (hup : s.UpToDate c t.ring) :
    c.depPoolSize < s.aliveEntries t.ring + s.wfanin c t := by
  have hord := Order.reach h
  obtain ⟨-, -, -, hshort⟩ := hstall
  have hlack : c.depPoolSize - ((s.reclaim c t.ring).depPool t.ring).used < s.wfanin c t := hshort.2
  have htop : ((s.reclaim c t.ring).depPool t.ring).top = (s.depPool t.ring).top := by
    rw [show (s.reclaim c t.ring).depPool t.ring = (s.depPool t.ring).reclaim
      (fun n => s.depPoolMark (c.rings.slot ⟨t.ring, n⟩)) (s.lastTaskAlive t.ring) from
        update_self ..]
    exact ((s.depPool t.ring).reclaim_cases _ _).1
  have halive := le_aliveEntries ((hord.reclaim t.ring).tail_pos t.ring)
    (hord.alive_of_tail_le hup)
  unfold DepListPool.used at hlack
  omega

/-! ## Concrete executions -/

/-- Windows of four slots and pools of four entries. -/
def smallPools : DepConfig := ⟨smallRings, 4⟩

/-- A task is submitted and wired. -/
def wiredTask (r : Nat) (fanin : List SlotRef) : List FanoutAct :=
  [FanoutAct.commitTask r, .storePending, .submit fanin] ++
    replicate (fanin.length + 2) FanoutAct.wire

/-- A task completes, with so many entries in its fanout list. -/
def completedTask (k : SlotRef) (n entries : Nat) : List FanoutAct :=
  .complete k :: replicate (2 * entries + 1) (.walk (k, n))

/-- The `alloc_tensors` task `n` of ring 0, until it has retired. -/
def passingAlloc (n : Nat) : List FanoutAct :=
  [.commitTask 0, .storePending, .allocTensors, .consume ⟨0, n % 4⟩, .retire 0]

/-- The tasks `n`, `n + 1` and `n + 2` of ring 0, until they have retired. The last two
depend on the first. -/
def passingFamily (n : Nat) : List FanoutAct :=
  let k i : SlotRef := ⟨0, (n + i) % 4⟩
  wiredTask 0 [] ++ wiredTask 0 [k 0] ++ wiredTask 0 [k 0] ++
    completedTask (k 0) n 2 ++ completedTask (k 1) (n + 1) 0 ++ completedTask (k 2) (n + 2) 0 ++
    [FanoutAct.consume (k 0), .consume (k 1), .consume (k 2), .retire 0, .retire 0, .retire 0]

set_option maxRecDepth 4000 in
/-- Task 63 of ring 0 is wired and 64 tasks have retired. Task 64 has three producers in
ring 1, so that there is no space for the two of task 65. -/
theorem wiring_stalls_when_full_small :
    ∃ s, Reach (step smallPools) free init s ∧ s.Stalls smallPools ⟨0, 65⟩ ∧
      s.UpToDate smallPools 0 ∧ 4 < s.aliveEntries 0 + s.wfanin smallPools ⟨0, 65⟩ := by
  refine Reach.exists_of_run_imp (P := fun s => s.Stalls smallPools ⟨0, 65⟩ ∧
      s.UpToDate smallPools 0)
    ((range 63).flatMap passingAlloc ++ wiredTask 0 [] ++ completedTask ⟨0, 3⟩ 63 0 ++
      [.consume ⟨0, 3⟩, .retire 0] ++ wiredTask 1 [] ++ wiredTask 1 [] ++ wiredTask 1 [] ++
      wiredTask 0 [⟨1, 0⟩, ⟨1, 1⟩, ⟨1, 2⟩] ++
      [.commitTask 0, .storePending, .submit [⟨1, 0⟩, ⟨1, 1⟩]]) (by decide +kernel)
    fun s hs ⟨hstall, hup⟩ => ?_
  exact ⟨hstall, hup, wiring_stalls_when_full smallPools hs hstall hup⟩

set_option maxRecDepth 4000 in
/--
**Dead entries.** Six tasks have retired and filled the pool with four entries, no
task is alive that has an entry, and a task with one producer is not wired, because fewer
than 64 tasks have retired. And again after 64 tasks have retired, the last of them an
`alloc_tensors` task: the reclaim is made, and it finds no mark.
-/
theorem wiring_stalls_on_dead_entries :
    (∃ s, Reach (step smallPools) free init s ∧ s.Stalls smallPools ⟨0, 7⟩ ∧
      s.lastTaskAlive 0 = 6 ∧ s.aliveEntries 0 = 0 ∧ s.wfanin smallPools ⟨0, 7⟩ = 1) ∧
    ∃ s, Reach (step smallPools) free init s ∧ s.Stalls smallPools ⟨0, 65⟩ ∧
      s.lastTaskAlive 0 = 64 ∧ s.aliveEntries 0 = 0 ∧ s.wfanin smallPools ⟨0, 65⟩ = 1 := by
  constructor
  · exact Reach.exists_of_run (passingFamily 0 ++ passingFamily 3 ++ wiredTask 0 [] ++
      [.commitTask 0, .storePending, .submit [⟨0, 2⟩]]) (by decide +kernel)
  · exact Reach.exists_of_run (passingFamily 0 ++ passingAlloc 3 ++ passingFamily 4 ++
      (range' 7 57).flatMap passingAlloc ++ wiredTask 0 [] ++
      [.commitTask 0, .storePending, .submit [⟨0, 0⟩]]) (by decide +kernel)

end Fanout

end PtoRuntime.Tmrb
