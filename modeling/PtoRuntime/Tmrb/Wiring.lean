import PtoRuntime.Lib.Reach

/-!
# Wiring and readiness of the tensormap_and_ringbuffer runtime

A submitted task carries the list of its producers' slots in its payload. Scheduler
thread 0 takes it from the wiring queue and runs `wire_task`: for each producer, under
the producer's fanout lock, it either counts the producer as finished or links the task
into the producer's fanout list; at the end it seeds `fanin_refcount` with the producers
found finished plus one. Meanwhile any number of threads run `on_mixed_task_complete`:
one lock section stores COMPLETED and reads the fanout list, and then every consumer of
that list gets its `fanin_refcount` bumped. Whoever brings the counter to `fanin_count`
pushes the task to its ready queue.

A step is one lock section, one atomic operation or one queue operation. Slots are
reused: `gen k` counts the submissions that slot `k` has held, and an *incarnation* is a
slot together with such a number. The slot's fields are keyed by the slot, as in the
source; what an execution has done so far is kept per incarnation.
-/

namespace PtoRuntime.Tmrb

open Function

/-- `PTO2TaskState`. -/
inductive TaskState
  | pending
  | completed
  | consumed
  deriving DecidableEq, Repr

/-- The test `pstate >= PTO2_TASK_COMPLETED`. -/
def TaskState.finished : TaskState → Bool
  | .pending => false
  | .completed | .consumed => true

/-- The submission number `gen` of a slot. -/
abbrev Inc (κ : Type) := κ × Nat

/-- Program counter of scheduler thread 0 in `drain_wiring_queue` / `wire_task`. -/
inductive WirePc (κ : Type)
  | idle
  | edges (c : κ) (todo : List κ) (early : Nat)  -- producers left, `early_finished`
  | seed (c : κ)                                 -- no producers: `fetch_add(1)` is next
  | push (c : κ)                                 -- `push_ready_routed` is next
  deriving DecidableEq, Repr

/-- Program counter of the `on_mixed_task_complete` call of one incarnation. -/
inductive NotifyPc (κ : Type)
  | notStarted                      -- COMPLETED is not stored yet
  | walk (todo : List κ)            -- fanout entries left
  | push (c : κ) (todo : List κ)    -- `release_fanin_and_check_ready` pushes `c` next
  | returned
  deriving DecidableEq, Repr

/-- The slots with their wiring and completions in progress. A fanout list is its consumers
in order; that its entries are cells of a pool, which may come back too early, is the
subject of `DepPool` and plays no part in what is proved over this model. -/
structure Wiring (κ : Type) where
  -- PTO2TaskSlotState, and the fanin list of its payload
  taskState : κ → TaskState
  fanoutHead : κ → List κ
  faninRefcount : κ → Nat
  faninCount : κ → Nat
  fanin : κ → List κ
  -- the wiring queue with the batch taken from it, the ready queues, the threads
  queue : List κ
  ready : List κ
  wire : WirePc κ
  notify : Inc κ → NotifyPc κ
  -- history: submissions this slot has held
  gen : κ → Nat

namespace Wiring

variable {κ : Type}

/-- The incarnation a slot holds. -/
def cur (s : Wiring κ) (k : κ) : Inc κ := (k, s.gen k)

/-- Before the first submission. `fanin_count` is not initialised by the source. -/
def init (faninCount : κ → Nat) : Wiring κ where
  taskState _ := .pending
  fanoutHead _ := []
  faninRefcount _ := 0
  faninCount := faninCount
  fanin _ := []
  queue := []
  ready := []
  wire := .idle
  notify _ := .notStarted
  gen _ := 0

variable [DecidableEq κ]
variable {s s' : Wiring κ}

/-! ## The orchestrator's side -/

/-- `prepare_task`: a slot is taken by a new submission. -/
def prepare (s : Wiring κ) (k : κ) : Wiring κ :=
  { s with
    taskState := update s.taskState k .pending
    gen := update s.gen k (s.gen k + 1) }

/-- The end of `submit_task_common`: the fanin list goes to the payload, the slot to the
wiring queue. -/
def submit (s : Wiring κ) (k : κ) (fanin : List κ) : Wiring κ :=
  { s with
    fanin := update s.fanin k fanin
    queue := s.queue ++ [k] }

/-- The end of `alloc_tensors`: the hidden task is completed inline. -/
def allocTensors (s : Wiring κ) (k : κ) : Wiring κ :=
  { s with
    taskState := update s.taskState k .completed
    fanin := update s.fanin k []
    notify := update s.notify (s.cur k) .returned }

/-! ## Scheduler thread 0 -/

/-- `wire_task` starts on the next task of the queue: `fanin_count = wfanin + 1`. -/
def wireStart (s : Wiring κ) (c : κ) (rest : List κ) : Wiring κ :=
  { s with
    queue := rest
    faninCount := update s.faninCount c ((s.fanin c).length + 1)
    wire := if (s.fanin c).isEmpty then .seed c else .edges c (s.fanin c) 0 }

/-- Lock section of `wire_task` on a producer that has finished. -/
def wireEarly (s : Wiring κ) (c : κ) (todo : List κ) (early : Nat) : Wiring κ :=
  { s with wire := .edges c todo (early + 1) }

/-- Lock section of `wire_task` on a producer that is still pending. -/
def wireLink (s : Wiring κ) (c p : κ) (todo : List κ) (early : Nat) : Wiring κ :=
  { s with
    fanoutHead := update s.fanoutHead p (c :: s.fanoutHead p)
    wire := .edges c todo early }

/-- `fanin_refcount.fetch_add(n)` of `wire_task`, when the task stays behind. -/
def wireSeed (s : Wiring κ) (c : κ) (n : Nat) : Wiring κ :=
  { s with
    faninRefcount := update s.faninRefcount c (s.faninRefcount c + n)
    wire := .idle }

/-- `fanin_refcount.fetch_add(n)` of `wire_task`, when the task is ready. -/
def wireGrant (s : Wiring κ) (c : κ) (n : Nat) : Wiring κ :=
  { s with
    faninRefcount := update s.faninRefcount c (s.faninRefcount c + n)
    wire := .push c }

/-- `push_ready_routed`. -/
def wirePush (s : Wiring κ) (c : κ) : Wiring κ :=
  { s with
    ready := c :: s.ready
    wire := .idle }

/-- One step of scheduler thread 0. -/
def wireStep (s : Wiring κ) : Option (Wiring κ) :=
  match s.wire with
  | .idle =>
    match s.queue with
    | [] => none
    | c :: rest => some (s.wireStart c rest)
  | .edges c (p :: todo) early =>
    if (s.taskState p).finished then some (s.wireEarly c todo early)
    else some (s.wireLink c p todo early)
  | .edges c [] early =>
    if s.faninCount c ≤ s.faninRefcount c + (early + 1) then some (s.wireGrant c (early + 1))
    else some (s.wireSeed c (early + 1))
  | .seed c => some (s.wireGrant c 1)
  | .push c => some (s.wirePush c)

/-! ## Completion -/

/-- The lock section of `on_mixed_task_complete`, entered for a task taken from a ready
queue when the last of its subtasks has finished. -/
def complete (s : Wiring κ) (k : κ) : Wiring κ :=
  { s with
    taskState := update s.taskState k .completed
    ready := s.ready.erase k
    notify := update s.notify (s.cur k) (.walk (s.fanoutHead k)) }

/-- `release_fanin_and_check_ready`: the `fetch_add` and the comparison. -/
def releaseFanin (s : Wiring κ) (q : Inc κ) (c : κ) (todo : List κ) : Wiring κ :=
  { s with
    faninRefcount := update s.faninRefcount c (s.faninRefcount c + 1)
    notify := update s.notify q
      (if s.faninRefcount c + 1 = s.faninCount c then .push c todo else .walk todo) }

/-- `release_fanin_and_check_ready`: the push. -/
def notifyPush (s : Wiring κ) (q : Inc κ) (c : κ) (todo : List κ) : Wiring κ :=
  { s with
    ready := c :: s.ready
    notify := update s.notify q (.walk todo) }

/-- One step of the `on_mixed_task_complete` call of an incarnation after its lock section. -/
def notifyStep (s : Wiring κ) (q : Inc κ) : Option (Wiring κ) :=
  match s.notify q with
  | .walk (c :: todo) => some (s.releaseFanin q c todo)
  | .walk [] => some { s with notify := update s.notify q .returned }
  | .push c todo => some (s.notifyPush q c todo)
  | _ => none

/-! ## Consumption and reuse -/

/-- The CAS from COMPLETED to CONSUMED. -/
def consume (s : Wiring κ) (k : κ) : Wiring κ :=
  { s with taskState := update s.taskState k .consumed }

/-- `reset_for_reuse`: the state stays CONSUMED. -/
def resetForReuse (s : Wiring κ) (k : κ) : Wiring κ :=
  { s with
    fanoutHead := update s.fanoutHead k []
    faninRefcount := update s.faninRefcount k 0 }

/-- Thread 0 leaves alone what the orchestrator and the completions write. -/
theorem wireStep_frame (h : s.wireStep = some s') :
    s'.gen = s.gen ∧ s'.taskState = s.taskState := by
  unfold wireStep at h
  split at h
  · split at h <;> cases h
    exact ⟨rfl, rfl⟩
  · split at h <;> cases h <;> exact ⟨rfl, rfl⟩
  · split at h <;> cases h <;> exact ⟨rfl, rfl⟩
  · cases h; exact ⟨rfl, rfl⟩
  · cases h; exact ⟨rfl, rfl⟩

theorem notifyStep_frame {q : Inc κ} (h : s.notifyStep q = some s') :
    s'.gen = s.gen ∧ s'.taskState = s.taskState := by
  unfold notifyStep at h
  split at h <;> cases h <;> exact ⟨rfl, rfl⟩

/-- Storing COMPLETED into a slot makes no slot CONSUMED. -/
theorem consumed_of_update_completed {f : κ → TaskState} {k k' : κ}
    (h : update f k .completed k' = .consumed) : f k' = .consumed := by
  by_cases hk : k' = k
  · rw [hk, update_self] at h
    cases h
  · rwa [update_of_ne hk] at h

end Wiring

end PtoRuntime.Tmrb
